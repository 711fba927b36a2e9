/-
# Proofs.Path -- paths that are read back from their texts, and safe names

Where the names of a path are names -- not empty, not a single dot and without slashes -- reading its text gives it back
(`ofString_text`), so such paths are told apart by their texts.

A safe name holds no unsafe character, no two low lines in a row, and neither a dot nor a low line at an end (`Safe`),
so it stays inside every directory (`Confined`).  Making it safe again only trims its ends (`safeChars_of_safe`): it may
still have a blank there, one that stood beside a dot or a low line and is no space.  A name is made safe once and for
all exactly when there is no such blank (`project_project_iff`).
-/
import Folio.Naming
import Folio.Path
import Mathlib.Data.Bool.AllAny
import Mathlib.Data.List.Infix

namespace Folio

open List Or String Text

variable {ending x : String} {p : Path} {parts : List String} {tail : List Char}

namespace Text

theorem ne_of_mem {y : String} (c : Char) (here : c ∈ x.toList) (off : c ∉ y.toList) : x ≠ y :=
  fun same => off (same ▸ here)

theorem cutFrom_single (sep : Char) (cs piece : List Char) :
    cutFrom [sep] 0 piece cs = cs.splitOnPPrepend (· == sep) piece := by
  induction cs generalizing piece with
  | nil => rw [cutFrom, splitOnPPrepend_nil]
  | cons c cs ih =>
    rw [cutFrom, splitOnPPrepend_cons_eq_if, splitOnP_eq_splitOnPPrepend, ← ih, ← ih]
    by_cases here : sep = c
    · simp [startsWithChars, dropHead?, here]
    · simp [startsWithChars, dropHead?, here, Ne.symm here]

theorem splitOn_single (s : String) (sep : Char) : splitOn s (ofList [sep]) = (s.toList.splitOn sep).map ofList := by
  rw [splitOn, toList_ofList, cutFrom_single, splitOn_eq_splitOnP, splitOnP_eq_splitOnPPrepend]

theorem splitOn_slash (s : String) : splitOn s "/" = (s.toList.splitOn '/').map ofList := splitOn_single s '/'

section Cutting

variable {p q : Char → Bool} {cs piece : List Char}

theorem clean_of_mem_splitOnP (member : piece ∈ cs.splitOnP p) : ∀ c ∈ piece, p c = false := by
  induction cs generalizing piece with
  | nil => simp_all
  | cons c cs ih =>
    rw [splitOnP_cons_eq_if_modifyHead] at member
    cases rest : cs.splitOnP p with
    | nil => exact absurd rest (splitOnP_ne_nil p cs)
    | cons first others => grind [modifyHead_cons]

/-- To cut a text at more places, its pieces can be cut. -/
theorem splitOnP_of_finer (finer : ∀ c, p c → q c) : cs.splitOnP q = (cs.splitOnP p).flatMap (·.splitOnP q) := by
  induction cs with
  | nil => rfl
  | cons c cs ih =>
    obtain ⟨first, others, rest⟩ := exists_cons_of_ne_nil (splitOnP_ne_nil p cs)
    obtain ⟨_, _, inner⟩ := exists_cons_of_ne_nil (splitOnP_ne_nil q first)
    by_cases coarse : p c <;> by_cases fine : q c <;> simp_all [splitOnP_cons_eq_if_modifyHead]

theorem mem_splitOnP_of_finer (finer : ∀ c, p c → q c) (clean : ∀ c ∈ piece, q c = false)
    (member : piece ∈ cs.splitOnP p) : piece ∈ cs.splitOnP q := by
  rw [splitOnP_of_finer finer, mem_flatMap]
  exact ⟨piece, member, by rw [splitOnP_eq_singleton clean, mem_singleton]⟩

theorem splitOnP_map (f : Char → Char) : (cs.map f).splitOnP p = (cs.splitOnP (p ∘ f)).map (List.map f) := by
  induction cs with
  | nil => rfl
  | cons c cs ih =>
    rw [map_cons, splitOnP_cons_eq_if_modifyHead, splitOnP_cons_eq_if_modifyHead, ih]
    cases cs.splitOnP (p ∘ f) <;> simp [apply_ite]

end Cutting

theorem noSlash_of_mem_splitOn {s : String} (member : x ∈ splitOn s "/") : '/' ∉ x.toList := by
  rw [splitOn_slash] at member
  obtain ⟨piece, inside, rfl⟩ := mem_map.1 member
  rw [toList_ofList]
  intro slash
  simpa using clean_of_mem_splitOnP inside '/' slash

theorem splitOn_slash_append (none_ : '/' ∉ x.toList) (s : String) :
    splitOn (x ++ "/" ++ s) "/" = x :: splitOn s "/" := by
  have letters : (x ++ "/" ++ s).toList = x.toList ++ '/' :: s.toList := by simp
  rw [splitOn_slash, splitOn_slash, letters, splitOn_append_cons_self_of_not_mem none_]
  simp

theorem splitOn_join (some_ : parts ≠ []) (none_ : ∀ x ∈ parts, '/' ∉ x.toList) :
    splitOn (join "/" parts) "/" = parts := by
  rw [splitOn_slash, join, String.toList_intercalate, show "/".toList = ['/'] from rfl,
    splitOn_intercalate _ (by simpa using none_) (by simpa using some_)]
  simp

theorem splitOn_last (s : String) (none_ : '/' ∉ ending.toList) :
    ∃ front x, splitOn (s ++ ending) "/" = front ++ [x ++ ending] := by
  suffices general : ∀ cs : List Char, ∃ front x, (cs ++ ending.toList).splitOn '/' = front ++ [x ++ ending.toList] by
    obtain ⟨front, x, pieces⟩ := general s.toList
    simp [splitOn_slash, pieces]
  intro cs
  induction cs with
  | nil => exact ⟨[], [], splitOn_eq_singleton none_⟩
  | cons c cs ih =>
    obtain ⟨front, x, pieces⟩ := ih
    rw [cons_append, splitOn_cons_eq_if_modifyHead, pieces]
    split
    · exact ⟨[] :: front, x, rfl⟩
    · cases front with
      | nil => exact ⟨[], c :: x, rfl⟩
      | cons first front => exact ⟨(c :: first) :: front, x, rfl⟩

end Text

namespace Path

/-- What can stand between two slashes; double dots are such a name. -/
structure IsName (x : String) : Prop where
  some_ : x ≠ ""
  notDot : x ≠ "."
  noSlash : '/' ∉ x.toList

instance (x : String) : Decidable (IsName x) :=
  decidable_of_iff (x ≠ "" ∧ x ≠ "." ∧ '/' ∉ x.toList) ⟨fun is => ⟨is.1, is.2.1, is.2.2⟩, fun is => ⟨is.1, is.2, is.3⟩⟩

structure IsEntry (x : String) : Prop extends IsName x where
  notUp : x ≠ ".."

instance (x : String) : Decidable (IsEntry x) :=
  decidable_of_iff (IsName x ∧ x ≠ "..") ⟨fun is => ⟨is.1, is.2⟩, fun is => ⟨is.toIsName, is.notUp⟩⟩

theorem normalParts_append {a b : List String} (plain : ".." ∉ b) : normalParts (a ++ b) = normalParts a ++ b := by
  unfold normalParts
  rw [foldl_append]
  generalize a.foldl _ [] = acc
  induction b generalizing acc with
  | nil => simp
  | cons x b ih =>
    obtain ⟨other, plain⟩ : ".." ≠ x ∧ ".." ∉ b := by simpa using plain
    rw [foldl_cons, if_neg (by simpa using Ne.symm other), ih plain]
    simp

/-- A path as reading gives it. -/
structure Readable (p : Path) : Prop where
  root : p.root = "" ∨ p.root = "/" ∨ p.root = "//"
  names : ∀ x ∈ p.parts, IsName x

section

variable (names : ∀ x ∈ parts, IsName x)

include names

theorem filter_names : parts.filter (fun x => x != "" && x != ".") = parts := by
  rw [filter_eq_self]
  intro x member
  simp [(names x member).some_, (names x member).notDot]

theorem splitOn_join_filter :
    (Text.splitOn (Text.join "/" parts) "/").filter (fun x => x != "" && x != ".") = parts := by
  by_cases none_ : parts = []
  · subst none_
    rfl
  · rw [splitOn_join none_ fun x member => (names x member).noSlash, filter_names names]

theorem takeWhile_join : (Text.join "/" parts).toList.takeWhile (· == '/') = [] := by
  cases parts with
  | nil => rfl
  | cons x rest =>
    obtain ⟨more, joined⟩ : ∃ more, (Text.join "/" (x :: rest)).toList = x.toList ++ more := by
      cases rest with
      | nil => exact ⟨[], by simp [Text.join]⟩
      | cons y rest =>
        exact ⟨"/".toList ++ ("/".intercalate (y :: rest)).toList, by
          simp only [Text.join, String.intercalate_cons_cons, toList_append, List.append_assoc]⟩
    have name := names x (by simp)
    cases chars : x.toList with
    | nil => exact absurd (toList_eq_nil_iff.1 chars) name.some_
    | cons c cs =>
      have other : c ≠ '/' := by
        rintro rfl
        exact name.noSlash (by simp [chars])
      rw [joined, chars, cons_append, takeWhile_cons_of_neg (by simpa using other)]

end

theorem ofString_text (readable : p.Readable) : ofString p.text = p := by
  obtain ⟨root, parts⟩ := p
  obtain ⟨mark, names⟩ := readable
  have slashes := takeWhile_join names
  have cut := splitOn_join_filter names
  rcases mark with rfl | rfl | rfl
  · by_cases none_ : parts = []
    · subst none_
      rfl
    · have text_ : (mk "" parts).text = Text.join "/" parts := by simp [text, none_]
      rw [text_, ofString, slashes, cut]
      rfl
  · have text_ : (mk "/" parts).text = "" ++ "/" ++ Text.join "/" parts := by simp [text]
    rw [text_, ofString, splitOn_slash_append (by simp)]
    simp [slashes, cut]
  · have text_ : (mk "//" parts).text = "" ++ "/" ++ ("" ++ "/" ++ Text.join "/" parts) := by
      simp [text, ← String.append_assoc]
    rw [text_, ofString, splitOn_slash_append (by simp), splitOn_slash_append (by simp)]
    simp [slashes, cut]

theorem ofString_of_isName (name : IsName x) : ofString x = ⟨"", [x]⟩ := by
  have single : ofString (mk "" [x]).text = ⟨"", [x]⟩ := ofString_text ⟨inl rfl, by simpa using name⟩
  rwa [text] at single

theorem child_of_isName (name : IsName x) (p : Path) : p.child x = p.entry x := by
  rw [child, ofString_of_isName name]
  rfl

theorem name_ofString (s : String) (none_ : '/' ∉ ending.toList) (long : 1 < ending.length) :
    (ofString (s ++ ending)).parts ≠ [] ∧ ∃ x, (ofString (s ++ ending)).name = x ++ ending := by
  obtain ⟨front, x, pieces⟩ := splitOn_last s none_
  have longer : 1 < (x ++ ending).length := by
    rw [String.length_append]
    omega
  have kept : x ++ ending ≠ "" ∧ x ++ ending ≠ "." := by
    constructor <;>
    · intro same
      rw [same] at longer
      exact absurd longer (by decide)
  have parts : (ofString (s ++ ending)).parts = front.filter (fun p => p != "" && p != ".") ++ [x ++ ending] := by
    simp [ofString, pieces, kept]
  exact ⟨by simp [parts], x, by simp [name, parts]⟩

theorem name_join {q : Path} (named : q.parts ≠ []) : (p.join q).parts ≠ [] ∧ (p.join q).name = q.name := by
  unfold join
  split
  · exact ⟨named, rfl⟩
  · refine ⟨by simp [named], ?_⟩
    simp [name, getLast?_eq_some_getLast named]

theorem isAbsolute_join (absolute : p.isAbsolute) (q : Path) : (p.join q).isAbsolute := by
  unfold join
  split
  · assumption
  · exact absolute

theorem suffixStart?_append {x : List Char} (some_ : x ≠ []) (some_' : tail ≠ []) (noDot : '.' ∉ tail) :
    suffixStart? (ofList (x ++ '.' :: tail)) = some x.length := by
  have cut : ((x ++ '.' :: tail).reverse.takeWhile (· != '.')) = tail.reverse := by
    have clean : ∀ c ∈ tail.reverse, (c != '.') := by
      intro c member
      simpa using fun dot : c = '.' => noDot (by simpa [dot] using member)
    rw [reverse_append, reverse_cons, List.append_assoc, takeWhile_append_of_pos clean]
    simp
  have before : 0 < x.length := length_pos_iff.2 some_
  have behind : 0 < tail.length := length_pos_iff.2 some_'
  unfold suffixStart?
  rw [toList_ofList, cut, length_ofList, length_reverse, List.length_append, length_cons]
  rw [if_neg]
  · congr 1
    omega
  · simp only [Bool.or_eq_true, beq_iff_eq, decide_eq_true_eq]
    omega

theorem nameStem_append {x : List Char} (some_ : x ≠ []) (some_' : tail ≠ []) (noDot : '.' ∉ tail) :
    nameStem (ofList (x ++ '.' :: tail)) = ofList x := by
  rw [nameStem, suffixStart?_append some_ some_' noDot]
  simp [takeChars]

theorem parent_entry (base : Path) (name : String) : (base.entry name).parent = base := by
  simp [parent, entry]

end Path

end Folio

namespace Folio.Text

open List

variable {c : Char} {name : String} {p : Char → Bool} {cs : List Char}

/-! ## Trimmed lists -/

/-- No character of the class stands at an end. -/
def Trimmed (p : Char → Bool) (cs : List Char) : Prop :=
  (∀ c ∈ cs.head?, p c = false) ∧ ∀ c ∈ cs.getLast?, p c = false

instance (p : Char → Bool) (cs : List Char) : Decidable (Trimmed p cs) :=
  decidable_of_iff ((cs.head?.all fun c => !p c) ∧ (cs.getLast?.all fun c => !p c)) (by
    unfold Trimmed
    cases cs.head? <;> cases cs.getLast? <;> simp)

theorem head?_dropWhile (first : c ∈ (cs.dropWhile p).head?) : p c = false := by
  have stops := head?_dropWhile_not p cs
  rwa [Option.mem_def.1 first] at stops

theorem dropWhile_of_head? (head : ∀ c ∈ cs.head?, p c = false) : cs.dropWhile p = cs := by
  cases cs with
  | nil => rfl
  | cons c cs => rw [dropWhile_cons_of_neg (by simp [head c rfl])]

theorem trimWhile_infix (p : Char → Bool) (cs : List Char) : trimWhile p cs <:+: cs := by
  have back : dropEndWhile p (cs.dropWhile p) <+: cs.dropWhile p := by
    rw [dropEndWhile, ← reverse_suffix, reverse_reverse]
    exact dropWhile_suffix p
  exact back.isInfix.trans (dropWhile_suffix p).isInfix

theorem trimmed_trimWhile (p : Char → Bool) (cs : List Char) : Trimmed p (trimWhile p cs) := by
  constructor
  · intro c first
    -- The first character that is left was the first after trimming the head.
    have begins : trimWhile p cs <+: cs.dropWhile p := by
      rw [trimWhile, dropEndWhile, ← reverse_suffix, reverse_reverse]
      exact dropWhile_suffix p
    obtain ⟨rest, whole⟩ := begins
    have head : c ∈ (cs.dropWhile p).head? := by
      rw [← whole, head?_append, Option.mem_def.1 first]
      rfl
    exact head?_dropWhile head
  · intro c last
    rw [trimWhile, dropEndWhile, getLast?_reverse] at last
    exact head?_dropWhile last

theorem trimWhile_of_trimmed (trimmed : Trimmed p cs) : trimWhile p cs = cs := by
  rw [trimWhile, dropEndWhile, dropWhile_of_head? trimmed.1,
    dropWhile_of_head? (by rw [head?_reverse]; exact trimmed.2), reverse_reverse]

theorem trimWhile_eq_self_iff : trimWhile p cs = cs ↔ Trimmed p cs :=
  ⟨fun same => same ▸ trimmed_trimWhile p cs, trimWhile_of_trimmed⟩

end Folio.Text

namespace Folio.Naming

open List String

open Path (IsEntry child_of_isName)
open Text (Trimmed trimWhile isBlank)

variable {bad : Char → Bool} {cs : List Char}

/-! ## The characters of a safe name -/

def doubled : List Char := ['_', '_']

theorem not_doubled_squeeze (cs : List Char) : ¬ doubled <:+: squeeze cs := by
  fun_induction squeeze cs with
  | case1 cs ih => exact ih
  | case2 c cs single ih =>
    rw [infix_cons_iff]
    rintro (begins | later)
    · -- What follows a low line does not begin with one, before squeezing or after.
      obtain ⟨rest, same⟩ := begins
      obtain ⟨rfl, tail⟩ := cons_eq_cons.1 same
      cases cs with
      | nil => simp [squeeze] at tail
      | cons d ds =>
        have other : d ≠ '_' := fun line => single ds rfl (by rw [line])
        rw [squeeze] at tail
        · exact other (cons_eq_cons.1 tail).1.symm
        · rintro _ rfl
          exact absurd rfl other
    · exact ih later
  | case3 => simp [doubled]

theorem squeeze_of_not_doubled (single : ¬ doubled <:+: cs) : squeeze cs = cs := by
  fun_induction squeeze cs with
  | case1 cs ih => exact absurd (prefix_append doubled cs).isInfix single
  | case2 c cs _ ih => rw [ih fun later => single (later.trans (suffix_cons c cs).isInfix)]
  | case3 => rfl

theorem mem_squeeze (member : c ∈ squeeze cs) : c ∈ cs := by
  fun_induction squeeze cs with
  | case1 cs ih => exact mem_cons_of_mem _ (ih member)
  | case2 d cs _ ih =>
    rcases mem_cons.1 member with rfl | later
    · exact mem_cons_self
    · exact mem_cons_of_mem _ (ih later)
  | case3 => exact member

theorem mem_safeChars (member : c ∈ safeChars bad cs) : c = '_' ∨ (c ∈ cs ∧ c ≠ ' ' ∧ bad c = false) := by
  obtain ⟨x, inside, same⟩ := mem_map.1 (mem_squeeze ((Text.trimWhile_infix _ _).subset member))
  split at same
  · exact Or.inl same.symm
  · rename_i safe
    subst same
    exact Or.inr ⟨(Text.trimWhile_infix _ _).subset inside, by simpa using safe⟩

/-- Neither a space nor an unsafe character, no two low lines in a row, and no dot or low line at an end. -/
structure Safe (bad : Char → Bool) (cs : List Char) : Prop where
  clean : ∀ c ∈ cs, c ≠ ' ' ∧ bad c = false
  single : ¬ doubled <:+: cs
  ends : Trimmed isFringe cs

theorem safe_safeChars (line : bad '_' = false) (cs : List Char) : Safe bad (safeChars bad cs) where
  clean c member := by
    rcases mem_safeChars member with rfl | ⟨-, good⟩
    · exact ⟨by decide, line⟩
    · exact good
  single inside := not_doubled_squeeze _ (inside.trans (Text.trimWhile_infix _ _))
  ends := Text.trimmed_trimWhile _ _

theorem safeChars_of_safe (safe : Safe bad cs) : safeChars bad cs = trimWhile isFringe (trimWhile isBlank cs) := by
  have inside := Text.trimWhile_infix isBlank cs
  have unmarked : (trimWhile isBlank cs).map (fun c => if c == ' ' || bad c then '_' else c) =
      trimWhile isBlank cs := by
    refine (map_congr_left fun c member => ?_).trans (map_id _)
    obtain ⟨space, good⟩ := safe.clean c (inside.subset member)
    simp [space, good]
  rw [safeChars, unmarked, squeeze_of_not_doubled fun within_ => safe.single (within_.trans inside)]

theorem safeChars_eq_self_iff (safe : Safe bad cs) : safeChars bad cs = cs ↔ Trimmed isBlank cs := by
  rw [safeChars_of_safe safe]
  constructor
  · intro same
    -- Trimming twice would leave less than there was.
    have short : (trimWhile isFringe (trimWhile isBlank cs)).length ≤ (trimWhile isBlank cs).length :=
      (Text.trimWhile_infix _ _).length_le
    rw [same] at short
    exact Text.trimWhile_eq_self_iff.1 ((Text.trimWhile_infix _ _).eq_of_length_le short)
  · intro trimmed
    rw [Text.trimWhile_of_trimmed trimmed, Text.trimWhile_of_trimmed safe.ends]

/-! ## Whole names -/

def Unblank (name : String) : Prop := Trimmed isBlank name.toList

instance (name : String) : Decidable (Unblank name) := inferInstanceAs (Decidable (Trimmed _ _))

theorem safe_safeWith {fallback : String} (line : bad '_' = false) (safe : Safe bad fallback.toList)
    (name : String) : Safe bad (safeWith bad fallback name).toList := by
  unfold safeWith
  dsimp only
  split
  · exact safe
  · rw [toList_ofList]
    exact safe_safeChars line _

theorem safe_project (name : String) : Safe isUnsafe (project name).toList :=
  safe_safeWith (by decide) ⟨all_iff_forall_prop.1 (by decide +kernel), by decide, by decide +kernel⟩ name

theorem mem_project (member : c ∈ (project name).toList) : c ∈ name.toList ∨ c ∈ "_project".toList := by
  unfold project safeWith at member
  dsimp only at member
  split at member
  · exact Or.inr (mem_cons_of_mem '_' member)
  · rw [toList_ofList] at member
    rcases mem_safeChars member with rfl | ⟨own, -⟩
    · exact Or.inr (by decide)
    · exact Or.inl own

theorem safeWith_ne_empty {fallback : String} (some_ : fallback ≠ "") (name : String) :
    safeWith bad fallback name ≠ "" := by
  unfold safeWith
  dsimp only
  split
  · exact some_
  · rename_i full
    intro empty
    have letters := congrArg toList empty
    rw [toList_ofList] at letters
    simp [letters] at full

theorem project_ne_empty (name : String) : project name ≠ "" := safeWith_ne_empty (by decide) name

theorem project_project_iff (name : String) : project (project name) = project name ↔ Unblank (project name) := by
  have safe := safe_project name
  have some_ := project_ne_empty name
  generalize project name = s at safe some_
  rw [Unblank, ← safeChars_eq_self_iff safe, project, safeWith]
  by_cases none_ : safeChars isUnsafe s.toList = []
  · rw [none_]
    constructor
    · rintro rfl
      revert none_
      decide +kernel
    · intro nothing
      exact absurd (toList_eq_nil_iff.1 nothing.symm) some_
  · simp only [List.isEmpty_iff, none_, if_false]
    rw [← toList_inj, toList_ofList]

theorem noSlash_project (name : String) : '/' ∉ (project name).toList :=
  fun member => absurd ((safe_project name).clean _ member).2 (by decide)

/-- Spaces and control characters become low lines, so a name whose blanks are all of these is made safe once and
for all. -/
theorem unblank_of_plain (plain : ∀ c ∈ name.toList, isBlank c → c = ' ' ∨ c.toNat < 32) : Unblank (project name) := by
  have unblank (c : Char) (member : c ∈ (project name).toList) : isBlank c = false := by
    obtain ⟨space, good⟩ := (safe_project name).clean c member
    rcases mem_project member with own | added
    · by_contra blank
      rcases plain c own (by simpa using blank) with rfl | control
      · exact space rfl
      · simp [isUnsafe, control] at good
    · have letters : ∀ c ∈ "_project".toList, isBlank c = false :=
        all_iff_forall_prop.1 (by decide +kernel)
      exact letters c added
  exact ⟨fun c first => unblank c (mem_of_mem_head? first), fun c last => unblank c (mem_of_getLast? last)⟩

/-! ## Names in a directory -/

/-- A file name that starts safely stays a file name, whatever follows it. -/
theorem isEntry_append {s suffix : String} (safe : Safe isUnsafe s.toList) (some_ : s ≠ "")
    (noSlash : '/' ∉ suffix.toList) : IsEntry (s ++ suffix) := by
  obtain ⟨c, cs, letters⟩ := exists_cons_of_ne_nil (mt toList_eq_nil_iff.1 some_)
  have other {x : String} (dot : x.toList.head? ≠ some c) : s ++ suffix ≠ x := fun same => dot (by simp [← same, letters])
  have first : c ≠ '.' := fun dot => absurd (safe.ends.1 c (by simp [letters])) (by simp [dot, isFringe])
  refine ⟨⟨other (by simp), other (by simpa using first.symm), ?_⟩, other (by simpa using first.symm)⟩
  rw [toList_append, mem_append]
  exact fun member => member.elim (fun own => absurd (safe.clean _ own).2 (by decide)) noSlash

/-- A name that can stand in a directory, alone or with something behind it. -/
structure Confined (s : String) : Prop where
  some_ : s ≠ ""
  clean : ∀ c ∈ s.toList, c ≠ ' ' ∧ c ∉ ['/', '\\', '<', '>', ':', '|', '?', '*', '"'] ∧ 32 ≤ c.toNat
  single : ¬ ['_', '_'] <:+: s.toList
  ends : ∀ c ∈ ['.', '_'], s.toList.head? ≠ some c ∧ s.toList.getLast? ≠ some c
  inside (dir : Path) (suffix : String) : '/' ∉ suffix.toList →
    dir.child (s ++ suffix) = dir.entry (s ++ suffix) ∧ s ++ suffix ≠ ".."

theorem confined_of_safe {s : String} (safe : Safe isUnsafe s.toList) (some_ : s ≠ "") : Confined s where
  some_ := some_
  clean c member := by
    obtain ⟨space, good⟩ := safe.clean c member
    simp [isUnsafe, isUnsafeMark] at good
    exact ⟨space, by simp; tauto, good.2⟩
  single := safe.single
  ends c member := by
    have fringe : isFringe c := by simpa [isFringe] using member
    exact ⟨fun first => by simp [safe.ends.1 c first] at fringe, fun last => by simp [safe.ends.2 c last] at fringe⟩
  inside dir suffix noSlash := by
    have entry := isEntry_append safe some_ noSlash
    exact ⟨child_of_isName entry.toIsName dir, entry.notUp⟩

/-- Safe names stay inside the directory that they are put into. -/
theorem names_confined (name : String) : Confined (project name) ∧ Confined (document name) := by
  have fallback : Safe isUnsafe "document".toList :=
    ⟨all_iff_forall_prop.1 (by decide +kernel), by decide, by decide +kernel⟩
  exact ⟨confined_of_safe (safe_project name) (project_ne_empty name),
    confined_of_safe (safe_safeWith (by decide) fallback name) (safeWith_ne_empty (by decide) name)⟩

end Folio.Naming
