/-
# Proofs.Api.Analyzing -- the analysis of an uploaded archive

An upload is kept under its own name and a mark of eight digits, and unpacked into a directory named after that file.
So uploads in different files are unpacked into directories of different names (`directories_apart`).

An analysis that succeeds comes down to one scan (`analyzed`) of a fresh directory with the archive's tree.  Afterwards
the directory is gone and the new index is stored.
-/
import Folio.Api.Analyses
import Folio.Api.Projects
import Folio.Proofs.Analysis
import Folio.Proofs.Archive.Unpacking
import Folio.Proofs.Dedup.Copies
import Mathlib.Data.List.TakeWhile

namespace Folio

open Action Archive Except List Path String Text Value

variable {temp : Path}

/-! ## Suffixes -/

namespace Path

theorem nameSuffix_cases (name : String) :
    nameSuffix name = "" ∨ ∃ tail : List Char, nameSuffix name = ofList ('.' :: tail) ∧ tail ≠ [] ∧ '.' ∉ tail := by
  unfold nameSuffix suffixStart?
  dsimp only
  split
  · rename_i i start
    right
    split at start
    · cases start
    · rename_i within_
      obtain rfl := Option.some.inj start
      simp only [Bool.or_eq_true, decide_eq_true_eq, not_or] at within_
      -- The name from behind: the tail, a dot and the rest.
      have whole := takeWhile_append_dropWhile (p := (· != '.')) (l := name.toList.reverse)
      generalize tail : name.toList.reverse.takeWhile (· != '.') = t at *
      have clean : '.' ∉ t := by
        intro member
        rw [← tail] at member
        simpa using mem_takeWhile_imp member
      have count : name.length = t.length + (name.toList.reverse.dropWhile (· != '.')).length := by
        rw [← length_toList]
        simpa using (congrArg List.length whole).symm
      cases rest : name.toList.reverse.dropWhile (· != '.') with
      | nil =>
        rw [rest] at count
        simp at count
        omega
      | cons x front =>
        have dot : x = '.' := by
          have head := head_dropWhile_not (· != '.') (l := name.toList.reverse) (by simp [rest])
          simpa [rest] using head
        rw [rest, dot] at whole
        have letters : name.toList = front.reverse ++ '.' :: t.reverse := by
          rw [← reverse_reverse name.toList, ← whole]
          simp
        refine ⟨t.reverse, ?_, by simpa using fun empty => within_.1 (by simp [empty]), by simpa using clean⟩
        rw [dropChars]
        have at_ : name.length - t.length - 1 = front.reverse.length := by
          rw [← length_toList, letters]
          simp
          omega
        rw [at_, letters, drop_left]
  · exact Or.inl rfl

end Path

/-! ## Marks -/

namespace Api.Projects

structure IsMark (cs : List Char) : Prop where
  length : cs.length = 8
  digits : ∀ c ∈ cs, isAlnum c

theorem isAlnum_of_mem_toDigits {c : Char} {n : Nat} (member : c ∈ Nat.toDigits 16 n) : isAlnum c := by
  have digit : ∃ k < 16, c = Nat.digitChar k := by
    induction n using Nat.strongRecOn with
    | ind n ih =>
      rw [Nat.toDigits_eq_if (by decide)] at member
      split at member
      · rename_i less
        exact ⟨n, less, mem_singleton.1 member⟩
      · rcases mem_append.1 member with before | last
        · exact ih (n / 16) (by omega) before
        · exact ⟨n % 16, Nat.mod_lt n (by decide), mem_singleton.1 last⟩
  obtain ⟨k, less, rfl⟩ := digit
  clear member
  revert k
  decide

theorem isMark_takeChars (n : Nat) (rest : String) : IsMark (takeChars 8 (hex 8 n ++ rest)).toList := by
  have long : 8 ≤ (hex 8 n).toList.length := by
    simp [hex, padStart]
    omega
  have front : (takeChars 8 (hex 8 n ++ rest)).toList = (hex 8 n).toList.take 8 := by
    rw [takeChars, toList_ofList, toList_append, take_append_of_le_length long]
  rw [front]
  refine ⟨by simpa using long, fun c member => ?_⟩
  have digit : c ∈ List.replicate (8 - (ofList (Nat.toDigits 16 n)).length) '0' ++ Nat.toDigits 16 n := by
    simpa [hex, padStart] using mem_of_mem_take member
  rcases mem_append.1 digit with pad | digit
  · rw [eq_of_mem_replicate pad]
    decide
  · exact isAlnum_of_mem_toDigits digit

theorem mark_of_directory {front cs cs' : List Char} {a b : Nat} (mark : IsMark cs) (mark' : IsMark cs')
    (same : crossed (directoryName (ofList (front ++ '_' :: cs))) a =
      crossed (directoryName (ofList (front ++ '_' :: cs'))) b) : cs = cs' := by
  let clean : Char → Char := fun c => if isAlnum c || c == '-' || c == '_' then c else '_'
  have kept {cs : List Char} (mark : IsMark cs) : cs.map clean = cs := by
    refine (map_congr_left fun c member => ?_).trans (map_id cs)
    simp [clean, mark.digits c member]
  have named {cs : List Char} (mark : IsMark cs) (a : Nat) :
      (crossed (directoryName (ofList (front ++ '_' :: cs))) a).toList =
        (front.map clean ++ ['_']) ++ (cs ++ ('_' :: List.replicate a 'X')) := by
    have bar : clean '_' = '_' := by simp [clean]
    have letters : (directoryName (ofList (front ++ '_' :: cs))).toList = (front ++ '_' :: cs).map clean ++ ['_'] := by
      simp only [directoryName, toList_append, toList_ofList]
      rfl
    rw [crossed, toList_append, letters, map_append, map_cons, kept mark, bar]
    simp
  have letters := congrArg toList same
  rw [named mark, named mark'] at letters
  exact (append_inj (append_cancel_left letters) (mark.length.trans mark'.length.symm)).1

/-! ## Uploads -/

def keptName (f : SentFile) (mark : String) : String :=
  uploadedName f ++ "_" ++ mark ++ orUsual (sentPath f).suffix ".zip"

theorem stem_keptName (f : SentFile) (mark : String) :
    nameStem (keptName f mark) = ofList ((uploadedName f).toList ++ '_' :: mark.toList) := by
  obtain ⟨tail, suffix, some_, noDot⟩ :
      ∃ tail : List Char, orUsual (sentPath f).suffix ".zip" = ofList ('.' :: tail) ∧ tail ≠ [] ∧ '.' ∉ tail := by
    unfold orUsual
    split
    · exact ⟨['z', 'i', 'p'], rfl, by decide, by decide⟩
    · rename_i other
      rcases nameSuffix_cases (sentPath f).name with none_ | suffix
      · exact absurd (beq_iff_eq.2 none_) other
      · exact suffix
  have name : keptName f mark = ofList (((uploadedName f).toList ++ '_' :: mark.toList) ++ '.' :: tail) := by
    rw [keptName, suffix, ← toList_inj]
    simp
  rw [name]
  exact nameStem_append (by simp) some_ noDot

def keptFile (temp : Path) (f : SentFile) (mark : String) : Path :=
  (temp.entry "devdoc_uploads").entry (keptName f mark)

theorem straight_keptFile (straight : temp.Straight) (f : SentFile) (mark : String) : (keptFile temp f mark).Straight :=
  (straight.entry (by decide)).entry (ne_of_mem '_' (by simp [keptName]) (by decide))

theorem directories_apart {f : SentFile} {mark mark' : String} (isMark : IsMark mark.toList)
    (isMark' : IsMark mark'.toList) (other : keptFile temp f mark ≠ keptFile temp f mark') (a b : Nat) :
    crossed (directoryName (keptFile temp f mark).stem) a ≠ crossed (directoryName (keptFile temp f mark').stem) b := by
  have stem (mark : String) : (keptFile temp f mark).stem = ofList ((uploadedName f).toList ++ '_' :: mark.toList) := by
    rw [← stem_keptName]
    simp [stem, keptFile, name, entry]
  rw [stem, stem]
  intro same
  have letters := mark_of_directory isMark isMark' same
  exact other (by rw [toList_inj.1 letters])

/-- A file was kept under a mark, and became the upload of the application. -/
structure Uploaded (f : SentFile) (mark : String) (w w' : Workspace) : Prop where
  isMark : IsMark mark.toList
  written : ∃ d, w.disk.makeDirs (w.temp.entry "devdoc_uploads") = .ok d ∧
    d.write (keptFile w.temp f mark) f.content w.now = .ok w'.disk
  temp : w'.temp = w.temp
  context : w'.context =
    { w.context with upload := some (.place (keptFile w.temp f mark)), projectName := some (uploadedName f) }

theorem uploaded_keepUpload {f : SentFile} {file : Path} {w w' : Workspace}
    (run : (keepUpload f).outcome w = (.ok file, w')) : ∃ mark d, IsMark mark.toList ∧ file = keptFile w.temp f mark ∧
      w.disk.makeDirs (w.temp.entry "devdoc_uploads") = .ok d ∧ d.write file f.content w.now = .ok w'.disk ∧
      w'.temp = w.temp ∧ w'.context = w.context := by
  have dir : uploads.outcome w = (.ok (w.temp.entry "devdoc_uploads"), w) := rfl
  rw [keepUpload, bind_of_ok dir] at run
  obtain ⟨_, w₁, first, run⟩ := steps_of_bind run
  obtain ⟨d, made, rfl⟩ := changed_of_ok first
  obtain ⟨id, w₂, second, run⟩ := steps_of_bind run
  obtain ⟨given, rfl⟩ := Prod.mk.inj second
  obtain rfl := ok.inj given
  obtain ⟨_, w₃, third, run⟩ := steps_of_bind run
  obtain ⟨d', written, rfl⟩ := written_of_ok third
  obtain ⟨given, rfl⟩ := Prod.mk.inj run
  obtain rfl := ok.inj given
  exact ⟨_, d, isMark_takeChars _ _, rfl, made, written, rfl, rfl⟩

theorem uploaded {r : Request} {answer : Value} {w w' : Workspace} (run : (upload r).outcome w = (.ok answer, w')) :
    ∃ mark, Uploaded (r.file.getD default) mark w w' ∧
      answer.get? "stored_path" = some (.text (keptFile w.temp (r.file.getD default) mark).text) := by
  unfold upload at run
  dsimp only at run
  split at run
  · cases run
  obtain ⟨file, w₁, first, run⟩ := steps_of_bind run
  obtain ⟨mark, d, isMark, rfl, made, written, temp, context⟩ := uploaded_keepUpload first
  obtain ⟨given, rfl⟩ := Prod.mk.inj run
  obtain rfl := ok.inj given
  refine ⟨mark, ⟨isMark, ⟨d, made, written⟩, temp, ?_⟩, rfl⟩
  simp [context]

end Api.Projects

end Folio

namespace Folio.Api.Analyses

open Action Dedup Disk List Path String

open Archive (unpackDir crossed directoryName)

variable {f : File} {name x : String} {way : List String}
  {w w' : Workspace} {r : Request} {root file home temp dir : Path} {answer : Value}

/-! ## Steps -/

theorem ok_of_telling {α : Type} {status : Nat} {lead : String} {a : Action α} {x : α}
    (run : (telling status lead a).outcome w = (.ok x, w')) : a.outcome w = (.ok x, w') := by
  rw [telling, outcome_tryCatch] at run
  split at run
  · rename_i y w'' first
    rw [first, run]
  · cases run

theorem steps_of_directory {unpacked : Bool} (run : (directory (.place file)).outcome w = (.ok (root, unpacked), w')) :
    (unpacked ∧ (Archive.extractOrFail w.temp (.file file)).outcome w = (.ok root, w')) ∨
      (unpacked = false ∧ root = file ∧ w' = w) := by
  rw [directory, bind_of_ok (outcome_get w)] at run
  dsimp only at run
  obtain ⟨there, w₁, asked, run⟩ := steps_of_bind run
  obtain ⟨-, rfl⟩ := Prod.mk.inj asked
  split at run
  · cases run
  · split at run
    · obtain ⟨dir, w₂, extracted, run⟩ := steps_of_bind run
      obtain ⟨⟨rfl, rfl⟩, rfl⟩ : (dir = root ∧ true = unpacked) ∧ w₂ = w' := by simpa using run
      exact Or.inl ⟨rfl, extracted⟩
    · obtain ⟨⟨rfl, rfl⟩, rfl⟩ : (file = root ∧ false = unpacked) ∧ w = w' := by simpa using run
      exact Or.inr ⟨rfl, rfl, rfl⟩

/-- The name that a project is to be analyzed under: that of the request, of the upload or of the directory. -/
def askedName (r : Request) (w : Workspace) (root : Path) : String :=
  firstText [r.text? "project_name", w.context.projectName] root.name

theorem steps_of_analyze (run : (analyze r root).outcome w = (.ok answer, w')) :
    ∃ outcome, (Analysis.run root (some (Naming.project (askedName r w root)))
        (r.flag "remove_duplicates" true)).outcome w = (.ok outcome, w') ∧
      answer.get? "dedup" = some outcome.duplicates ∧ answer.get? "snapshots" = some (.list outcome.snapshots) ∧
      answer.get? "project_name" = some (.text (Naming.project (askedName r w root))) := by
  rw [analyze, bind_of_ok (outcome_get w)] at run
  obtain ⟨outcome, w₁, analyzed, run⟩ := steps_of_bind run
  obtain ⟨given, rfl⟩ := Prod.mk.inj run
  obtain rfl := Except.ok.inj given
  exact ⟨outcome, analyzed, rfl, rfl, rfl⟩

theorem steps_of_upload {u : Upload} (upload : w.context.upload = some u)
    (run : (Analyses.run r).outcome w = (.ok answer, w')) :
    ∃ root unpacked w₁ w₂, (directory u).outcome w = (.ok (root, unpacked), w₁) ∧
      (analyze r root).outcome w₁ = (.ok answer, w₂) ∧
      w' = if unpacked then { w₂ with disk := w₂.disk.removeTree root } else w₂ := by
  unfold Analyses.run at run
  rw [bind_of_ok (outcome_get w), upload] at run
  obtain ⟨⟨root, unpacked⟩, w₁, first, rest⟩ := steps_of_bind (ok_of_telling run)
  obtain ⟨answer', w₂, second, last⟩ := steps_of_bind rest
  obtain ⟨given, state⟩ := Prod.mk.inj second
  obtain rfl := Except.ok.inj given
  -- Whatever came of the analysis is the answer.
  have same {v : Workspace}
      (told : (liftM (((analyze r root).outcome w₁).1) : Action Value).outcome v = (.ok answer, w')) :
      (analyze r root).outcome w₁ = (.ok answer, w₂) ∧ v = w' := by
    obtain ⟨succeeded, same⟩ := Prod.mk.inj told
    exact ⟨Prod.ext succeeded state, same⟩
  refine ⟨root, unpacked, w₁, w₂, first, ?_⟩
  cases unpacked with
  | true =>
    obtain ⟨_, w₃, removed, told⟩ := steps_of_bind last
    obtain ⟨d, gone, rfl⟩ := changed_of_ok removed
    obtain rfl := Except.ok.inj gone
    obtain ⟨analyzed, rfl⟩ := same told
    exact ⟨analyzed, rfl⟩
  | false =>
    obtain ⟨analyzed, rfl⟩ := same last
    exact ⟨analyzed, rfl⟩

theorem steps_of_run (upload : w.context.upload = some (.place file)) (isFile : w.disk.file file = .ok f)
    (run : (Analyses.run r).outcome w = (.ok answer, w')) :
    ∃ root w₁ w₂, (Archive.extractOrFail w.temp (.file file)).outcome w = (.ok root, w₁) ∧
      (analyze r root).outcome w₁ = (.ok answer, w₂) ∧ w' = { w₂ with disk := w₂.disk.removeTree root } := by
  obtain ⟨root, unpacked, w₁, w₂, first, second, last⟩ := steps_of_upload upload run
  rcases steps_of_directory first with ⟨rfl, extracted⟩ | ⟨rfl, rfl, rfl⟩
  · exact ⟨root, w₁, w₂, extracted, second, last⟩
  · -- A file cannot be analyzed as it is.
    obtain ⟨outcome, inner, -⟩ := steps_of_analyze second
    obtain ⟨es, isDir⟩ := Analysis.dir_of_run inner
    simp [file, isDir] at isFile

/-! ## Places -/

def indexOf (dir : Path) : Path := dir.entry "dedup_index.json"

/-- The home directory, the directory for temporary files and that of saved analyses, so that the application's
own files lie outside of what it unpacks and of what it receives. -/
structure Sited (home temp dir : Path) : Prop where
  straightHome : home.Straight
  straightTemp : temp.Straight
  straightSaves : dir.Straight
  names : ∀ x ∈ temp.parts, IsName x
  homeApart : ¬ (unpackDir temp).parts <+: home.parts
  savesApart : ¬ (unpackDir temp).parts <+: dir.parts
  uploadsApart : dir.parts ≠ (temp.entry "devdoc_uploads").parts

def Quiet (temp dir : Path) (way : List String) : Prop :=
  ¬ (unpackDir temp).parts <+: way ∧ way ≠ (indexOf dir).parts

variable {a b rest : List String}

theorem prefix_of_append (before : a ++ [x] <+: b ++ rest) (off : x ∉ rest) : a ++ [x] <+: b := by
  obtain ⟨more, same⟩ := before
  rcases append_eq_append_iff.1 same with ⟨mid, within_, -⟩ | ⟨mid, outside, rest_⟩
  · exact ⟨mid, within_.symm⟩
  · cases mid.eq_nil_or_concat with
    | inl none_ => simp_all
    | inr last =>
      obtain ⟨front, y, rfl⟩ := last
      have ends : x = y := by
        have last := congrArg getLast? outside
        simpa using last
      exact absurd (by simp [rest_, ends]) off

theorem ne_of_last (some_ : rest ≠ []) (off : x ∉ rest) : a ++ rest ≠ b ++ [x] := by
  intro same
  have last := congrArg getLast? same
  rw [getLast?_append_of_ne_nil _ some_, getLast?_concat] at last
  exact off (mem_of_getLast? last)

namespace Sited

section

variable (sited : Sited home temp dir)

include sited

theorem quiet_notes (note : Analysis.Notes home way) : Quiet temp dir way := by
  obtain ⟨rest, rfl, which⟩ := note
  have off {x : String} (known : x ∉ ["User_config_files", "portfolio_overrides", "project_insights.json"])
      (clean : 'T' ∉ x.toList) : x ∉ "User_config_files" :: rest := by
    rcases which with rfl | rfl | rfl | ⟨t, rfl⟩
    · simp_all
    · simp_all
    · simp_all
    · have aside := Text.ne_of_mem 'T' (Insight.Log.mem_asideName t "project_insights.json") clean
      simp_all [eq_comm]
  have parts : (Context.usualFilesDir home).parts ++ rest = home.parts ++ ("User_config_files" :: rest) := by
    simp [Context.usualFilesDir, entry]
  rw [parts]
  exact ⟨fun below => sited.homeApart (prefix_of_append below (off (by decide) (by decide))),
    ne_of_last (by simp) (off (by decide) (by decide))⟩

theorem quiet_saves : Quiet temp dir dir.parts :=
  ⟨sited.savesApart, fun same => by simpa [indexOf, entry] using congrArg List.length same⟩

theorem quiet_saved (other : name ≠ "devdoc_extracts")
    (other' : name ≠ "dedup_index.json") : Quiet temp dir (dir.entry name).parts :=
  ⟨fun below => sited.savesApart (prefix_of_append below (by simpa using other.symm)),
    ne_of_last (by simp) (by simpa using other'.symm)⟩

theorem quiet_keeps
    (other : Naming.project name ≠ "dedup_index") (kept : Analysis.Keeps home dir name way) : Quiet temp dir way := by
  rcases kept with rfl | rfl | rfl
  · exact sited.quiet_saves
  · refine sited.quiet_saved (Text.ne_of_mem '.' (by simp) (by decide)) fun same => other ?_
    have letters := congrArg toList same
    rw [toList_append] at letters
    exact toList_inj.1 (append_cancel_right letters)
  · exact ⟨fun below => sited.homeApart (prefix_of_append below (by decide)), ne_of_last (by simp) (by decide)⟩

end

end Sited

/-! ## One analysis -/

/-- An upload was analyzed: the tree `n` below `root` was scanned on the disk `d` with the index `i`. -/
structure Analyzed (dir file : Path) (remove : Bool) (w : Workspace) (answer : Value) (w' : Workspace) (root : Path)
    (n : Node) (d : Disk) (i : Index) (name : String) : Prop where
  place : ∃ k, root = (unpackDir w.temp).entry (crossed (directoryName file.stem) (k + 1))
  rooted : Rooted d root n
  index : d.root.leaf? (indexOf dir).parts = w.disk.root.leaf? (indexOf dir).parts
  loaded : load d (indexOf dir) = .ok i
  found : ∃ o : Outcome, answer.get? "dedup" = some o.toValue ∧
    o.unique = (scan d i remove root).unique ∧ o.duplicates = (scan d i remove root).duplicates
  named : answer.get? "project_name" = some (.text name)
  /-- A scan that deletes nothing leaves its index behind, unless the analysis is saved over it. -/
  kept : (scan d i remove root).disk = d → Naming.project (Naming.project name) ≠ "dedup_index" →
    w'.disk.Linkless ∧ w'.context = w.context ∧ w'.temp = w.temp ∧
      ∃ f, w'.disk.file (indexOf dir) = .ok f ∧
        f.content = .document layout (scan d i remove root).index.toValue

theorem lockOf_indexOf (dir : Path) : lockOf (indexOf dir) = dir.entry "dedup_index.json.lock" := by
  simp [lockOf, indexOf, withName, entry, name]

theorem parent_indexOf (dir : Path) : (indexOf dir).parent = dir := parent_entry dir _

theorem straight_indexOf (straight : dir.Straight) : (indexOf dir).Straight := straight.entry (by decide)

theorem Sited.off_index (sited : Sited home temp dir) (name : String) :
    ¬ ((unpackDir temp).entry name).parts <+: (indexOf dir).parts := fun below =>
  sited.savesApart (prefix_of_append ((prefix_append _ _).trans below) (by decide))

variable (sited : Sited w.context.home w.temp dir) (linkless : w.disk.Linkless)

include sited linkless

theorem kept_of_search {root : Path} {remove : Bool} {found : Outcome}
    (run : (Dedup.run root (indexOf dir) remove false).outcome w = (.ok found, w')) :
    ∃ d i, w.disk.Reaches (Quiet w.temp dir) d ∧ load d (indexOf dir) = .ok i ∧
      found.unique = (scan d i remove root).unique ∧ found.duplicates = (scan d i remove root).duplicates ∧
      w'.context = w.context ∧ w'.temp = w.temp ∧
      ((scan d i remove root).disk = d → w'.disk.Linkless ∧ ∃ f, w'.disk.file (indexOf dir) = .ok f ∧
          f.content = .document layout (scan d i remove root).index.toValue) := by
  have straight := sited.straightSaves
  obtain ⟨d₁, d₂, i, d₃, d₄, made, taken, loaded, again, written, rfl, unique, duplicates, -⟩ :=
    Dedup.steps_of_run run
  rw [parent_indexOf] at made again
  rw [lockOf_indexOf] at taken
  have reaches₁ := reaches_makeDirs linkless straight made
  have reaches₂ := reaches_write reaches₁.linkless (straight.entry (by decide)) (by simp [entry]) taken
  have reaches : w.disk.Reaches (Quiet w.temp dir) d₂ := by
    refine (reaches₁.mono ?_).trans (reaches₂.mono ?_)
    · rintro way rfl
      exact sited.quiet_saves
    · rintro way rfl
      exact sited.quiet_saved (by decide) (by decide)
  refine ⟨d₂, i, reaches, loaded, unique, duplicates, rfl, rfl, fun same => ?_⟩
  rw [same] at again
  have linkless₃ := (reaches_makeDirs reaches.linkless straight again).linkless
  have own : (indexOf dir).parts ≠ [] := by simp [indexOf, entry]
  exact ⟨(reaches_write linkless₃ (straight_indexOf straight) own written).linkless, _,
    file_written linkless₃ (straight_indexOf straight) own written, rfl⟩

theorem analyzed (saved : w.context.saveDir = some dir) (upload : w.context.upload = some (.place file))
    (isFile : w.disk.file file = .ok f) (run : (Analyses.run r).outcome w = (.ok answer, w')) :
    ∃ a root n d i name, Archive.ofContent? f.content = some a ∧ n.bare = Archive.tree a ∧
      Analyzed dir file (r.flag "remove_duplicates" true) w answer w' root n d i name := by
  obtain ⟨root, w₁, w₄, extracted, analyzed, rfl⟩ := steps_of_run upload isFile run
  obtain ⟨f', a, isFile', archive, unpacked⟩ := Archive.unpacked linkless sited.straightTemp extracted
  obtain rfl : f = f' := Except.ok.inj (isFile.symm.trans isFile')
  obtain ⟨outcome, inner, dedup, -, named⟩ := steps_of_analyze analyzed
  have some_ := Naming.project_ne_empty (askedName r w₁ root)
  generalize Naming.project (askedName r w₁ root) = name at inner named some_
  obtain ⟨k, rfl⟩ := unpacked.place
  obtain ⟨straight, -⟩ := unpacked.straight sited.straightTemp
  obtain ⟨n, held, bare⟩ := unpacked.holds.held
  have steady := unpacked.holds.steady
  have sited₁ : Sited w₁.context.home w₁.temp dir := steady.context.symm ▸ steady.temp.symm ▸ sited
  obtain ⟨es, isDir⟩ := Analysis.dir_of_run inner
  obtain ⟨w₂, w₃, found, analysis, snapshots, noting, searched, exported, told⟩ :=
    Analysis.steps_of_run steady.linkless sited₁.straightHome (steady.context.symm ▸ saved) some_ inner
  have sited₂ : Sited w₂.context.home w₂.temp dir := noting.context.symm ▸ noting.temp.symm ▸ sited₁
  obtain ⟨d, i, reaches, loaded, unique, duplicates, context₃, temp₃, kept⟩ :=
    kept_of_search sited₂ noting.linkless searched
  -- From the directory's unpacking to the scan nothing happens in it or to the index.
  have quiet : w₁.disk.Reaches (Quiet w₁.temp dir) d :=
    (noting.disk.mono fun _ => sited₁.quiet_notes).trans (noting.temp ▸ reaches)
  rw [steady.temp] at quiet
  have same : d.root.at? ((unpackDir w.temp).entry (crossed (directoryName file.stem) (k + 1))).parts =
      w₁.disk.root.at? ((unpackDir w.temp).entry (crossed (directoryName file.stem) (k + 1))).parts :=
    quiet.trees _ unpacked.holds.isDir fun way quiet below => quiet.1 ((prefix_append _ _).trans below)
  obtain rfl : Node.dir es = n := by
    have there := node_linkless steady.linkless straight isDir
    exact Option.some.inj (there.symm.trans held)
  have rooted : Rooted d _ (Node.dir es) := {
    linkless := quiet.linkless
    straight := straight
    names := by
      intro x member
      simp only [unpackDir, entry, mem_append, mem_singleton] at member
      rcases member with (above | rfl) | rfl
      · exact sited.names x above
      · decide
      · exact Archive.isName_crossed _ _
    node := node_of_at? steady.linkless quiet.linkless straight same isDir
    neat := Node.neat_bare.1 (bare ▸ Archive.neat_tree a) }
  refine ⟨a, _, _, d, i, name, archive, bare, ⟨k, rfl⟩, rooted, ?_, loaded,
    ⟨found, dedup.trans (told ▸ rfl), unique, duplicates⟩, named, fun unchanged other => ?_⟩
  · have outside : ¬ Archive.Unpacking ((unpackDir w.temp).entry (crossed (directoryName file.stem) (k + 1)))
        (indexOf dir).parts := by
      rintro (above | below)
      · simp [indexOf, unpackDir, entry, parent] at above
      · exact sited.off_index _ below
    rw [quiet.leaves _ fun index => index.2 rfl, steady.disk.leaves _ outside]
  · obtain ⟨linkless₃, f', stored, content⟩ := kept unchanged
    have context : w₃.context = w.context := context₃.trans (noting.context.trans steady.context)
    have keeping : Steady (Analysis.Keeps w.context.home dir (Naming.project name)) w₃ w₄ :=
      (Saved.within_export sited.straightHome saved sited.straightSaves (Or.inl rfl) (Or.inr (Or.inl rfl))
        (Or.inr (Or.inr rfl)) analysis).steady linkless₃ context exported
    obtain ⟨linkless', leaves⟩ := removeTree_linkless keeping.linkless straight
    refine ⟨linkless', keeping.context.trans context,
      keeping.temp.trans (temp₃.trans (noting.temp.trans steady.temp)), f', ?_, content⟩
    refine (file_of_leaf linkless₃ linkless' (straight_indexOf sited.straightSaves) ?_).2 stored
    rw [leaves _ (sited.off_index _), keeping.disk.leaves _ fun index => (sited.quiet_keeps other index).2 rfl]

end Folio.Api.Analyses
