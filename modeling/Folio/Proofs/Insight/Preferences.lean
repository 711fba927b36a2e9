/-
# Proofs.Insight.Preferences -- updates of preferences one after another

An update loads what is stored, over the usual values, writes its own values over that and stores the whole.  After any
updates a preference is the last value other than null that one of them gave (`told`), or else the one that was stored,
or else the usual one (`updates_compose`).

Presenting chooses the insights with a label, corrects their times, sorts them by their wanted place and the text of
their time, and takes the showcased ones first (`presented_stably`).  Times are compared as texts, so the order of one
place is the order of time exactly if no text comes before one of an earlier time (`presented_chronologically_iff`).

A ranking by composite scores follows the shares until counts are far apart (`exactScore_lt_iff`).
-/
import Folio.Insight.Preferences
import Folio.Proofs.Insight.Listing
import Mathlib.Data.List.Pairwise
import Mathlib.Tactic.Linarith
import Mathlib.Tactic.Ring

namespace Folio.Insight.Preferences

open Action Disk Fields Json List

variable {base : Path} {fs u : Fields} {us : List Fields} {key name : String} {w : Workspace}

/-! ## Values given one after another -/

/-- The last value other than null that fields give a name. -/
def told (fs : Fields) (key : String) : Option Value := get? (fs.filter fun f => !f.2.isNull).reverse key

theorem get?_merged (prefs more : Fields) (key : String) :
    get? (merged prefs more) key = (told more key).or (get? prefs key) :=
  get?_setAll _ _ _

theorem told_append (fs more : Fields) (key : String) : told (fs ++ more) key = (told more key).or (told fs key) := by
  rw [told, filter_append, reverse_append]
  exact lookup_append

theorem isNull_of_told {v : Value} (found : told fs key = some v) : v.isNull = false := by
  have member := mem_reverse.1 (mem_of_get? found)
  simpa using (mem_filter.1 member).2

theorem get?_nil (key : String) : get? [] key = none := rfl

theorem told_of_distinct (distinct : (keys fs).Nodup) (key : String) :
    told fs key = (get? fs key).filter (!·.isNull) := by
  induction fs with
  | nil => rfl
  | cons f fs ih =>
    obtain ⟨apart, distinct⟩ := nodup_cons.1 distinct
    have one : told [f] key = (get? [f] key).filter (!·.isNull) := by
      rw [told]
      cases null : f.2.isNull <;> by_cases here : key = f.1 <;> simp [get?_cons f.1 f.2, get?_nil, here, null, Option.filter]
    rw [← singleton_append, told_append, ih distinct, one, singleton_append, get?_cons, get?_cons]
    split
    · rename_i here
      have absent : get? fs key = none := by
        rw [← Option.not_isSome_iff_eq_none, ← Fields.mem_keys, here]
        exact apart
      rw [absent]
      rfl
    · simp [get?_nil]

theorem distinct_merged (distinct : (keys fs).Nodup) (more : Fields) : (keys (merged fs more)).Nodup :=
  nodup_keys_setAll distinct _

theorem told_merged (distinct : (keys fs).Nodup) (more : Fields) (key : String) :
    told (merged fs more) key = (told more key).or (told fs key) := by
  rw [told_of_distinct (distinct_merged distinct _), get?_merged, told_of_distinct distinct]
  cases found : told more key with
  | none => rfl
  | some v => simp [isNull_of_told found]

theorem distinct_usual : (keys usual).Nodup := by decide

theorem told_usual (key : String) : told usual key = get? usual key := by
  have present : ∀ f ∈ usual, f.2.isNull = false := by decide
  rw [told_of_distinct distinct_usual]
  cases found : get? usual key with
  | none => rfl
  | some v => simp [present _ (mem_of_get? found)]

/-! ## Updates -/

/-- A file that holds an object, or is not there yet. -/
structure Kept (w : Workspace) (base : Path) (name : String) (fs : Fields) : Prop where
  room : w.disk.Room base name
  stored : w.disk.root.at? (base.entry name).parts = none ∧ fs = [] ∨ w.disk.document (base.entry name) = .ok (.object fs)
  plain : isPlainFields fs

theorem outcome_load (kept : Kept w base name fs) : (load (base.entry name)).outcome w = (.ok (merged usual fs), w) := by
  rw [load, bind_of_ok (outcome_exists kept.room)]
  rcases kept.stored with ⟨nothing, rfl⟩ | held
  · rw [nothing]
    rfl
  · cases found : w.disk.root.at? (base.entry name).parts with
    | none =>
      have none_ := document_of_none kept.room.linkless kept.room.straight found
      rw [held] at none_
      cases none_
    | some n =>
      show (disk >>= _).outcome w = _
      rw [bind_of_ok (outcome_disk w), held]
      rfl

theorem isPlainFields_merged {prefs : Fields} (plain : isPlainFields prefs) (more : isPlainFields u) :
    isPlainFields (merged prefs u) := by
  rw [isPlainFields_iff] at plain more ⊢
  intro f member
  rcases mem_setAll member with new | old
  · exact more f (mem_filter.1 new).1
  · exact plain f old

theorem outcome_update (kept : Kept w base name fs) (plain : isPlainFields u) :
    ∃ w', (update (base.entry name) u).outcome w = (.ok (merged (merged usual fs) u), w') ∧
      Kept w' base name (merged (merged usual fs) u) := by
  have whole := isPlainFields_merged (isPlainFields_merged (show isPlainFields usual from rfl) kept.plain) plain
  obtain ⟨d, made⟩ := kept.room.made
  obtain ⟨d', written, -, found, ready⟩ :=
    (kept.room.ready made).1.write (.document .pretty (.object (merged (merged usual fs) u))) w.now
  refine ⟨{ w with disk := d' }, ?_, ready.room, .inr (document_of_file found rfl), whole⟩
  rw [update, bind_of_ok (outcome_load kept), save, outcome_bind, outcome_store, Path.parent_entry, made]
  dsimp only
  rw [isPlain, if_pos whole, outcome_write]
  rw [written]
  rfl

/-- Updates one after another, and what is loaded after them. -/
def updates (file : Path) : List Fields → Action Fields
  | [] => load file
  | u :: us => do
    discard (update file u)
    updates file us

theorem outcome_updates (kept : Kept w base name fs) (plain : ∀ u ∈ us, isPlainFields u) :
    ∃ out w', (updates (base.entry name) us).outcome w = (.ok out, w') ∧ (keys out).Nodup ∧
      ∀ key, get? out key = (told us.flatten key).or ((told fs key).or (get? usual key)) := by
  induction us generalizing w fs with
  | nil => exact ⟨_, w, outcome_load kept, distinct_merged distinct_usual _, get?_merged usual fs⟩
  | cons u us ih =>
    obtain ⟨first, rest⟩ := forall_mem_cons.1 plain
    obtain ⟨w₁, run, kept₁⟩ := outcome_update kept first
    obtain ⟨out, w', ran, distinct, read⟩ := ih kept₁ rest
    refine ⟨out, w', ?_, distinct, fun key => ?_⟩
    · have done : (discard (update (base.entry name) u)).outcome w = (.ok (), w₁) := by
        rw [outcome_discard, run]
        rfl
      rw [updates, bind_of_ok done, ran]
    · rw [read, told_merged (distinct_merged distinct_usual _), told_merged distinct_usual, told_usual,
        flatten_cons, told_append]
      simp [Option.or_assoc]

/-- After any updates every name has the last value other than null that one of them gave, or else the one that was
stored, or else the usual one; and two updates are one, in which the second is written over the first. -/
theorem updates_compose (room : w.disk.Room base name)
    (stored : w.disk.root.at? (base.entry name).parts = none ∧ fs = [] ∨
      w.disk.document (base.entry name) = .ok (.object fs))
    (plain : isPlainFields fs = true) :
    (∀ us : List Fields, (∀ u ∈ us, isPlainFields u = true) →
      ∃ out w', (updates (base.entry name) us).outcome w = (.ok out, w') ∧ (keys out).Nodup ∧
        ∀ key, get? out key = (told us.flatten key).or ((told fs key).or (get? usual key))) ∧
    ∀ u₁ u₂ : Fields, (keys u₁).Nodup → isPlainFields u₁ = true → isPlainFields u₂ = true →
      ∃ two one w₂ w₁, (updates (base.entry name) [u₁, u₂]).outcome w = (.ok two, w₂) ∧
        (updates (base.entry name) [merged u₁ u₂]).outcome w = (.ok one, w₁) ∧ ∀ key, get? two key = get? one key := by
  have kept : Kept w base name fs := ⟨room, stored, plain⟩
  refine ⟨fun us plain => outcome_updates kept plain, fun u₁ u₂ distinct plain₁ plain₂ => ?_⟩
  obtain ⟨two, w₂, ran₂, -, read₂⟩ := outcome_updates kept (show ∀ u ∈ [u₁, u₂], isPlainFields u = true by simp [plain₁, plain₂])
  obtain ⟨one, w₁, ran₁, -, read₁⟩ :=
    outcome_updates kept (forall_mem_singleton.2 (isPlainFields_merged plain₁ plain₂))
  refine ⟨two, one, w₂, w₁, ran₂, ran₁, fun key => ?_⟩
  rw [read₂, read₁]
  simp only [flatten_cons, flatten_nil, append_nil, told_append, told_merged distinct]

/-- What the second of two updates leaves null, the first one decides. -/
theorem null_keeps_first :
    ∃ out w', (updates (Log.dataDir.entry "log.json") [
        [("project_order", .texts ["a"]), ("theme", .int 1)],
        [("project_order", .null), ("theme", .int 2)]]).outcome Log.bareDisk = (.ok out, w') ∧
      get? out "project_order" = some (.texts ["a"]) ∧ get? out "theme" = some (.int 2) ∧
      get? out "highlight_skills" = some (.list []) ∧ get? out "other" = none := by
  obtain ⟨out, w', ran, -, read⟩ := (updates_compose Log.room_bareDisk (.inl ⟨rfl, rfl⟩) rfl).1 [
    [("project_order", .texts ["a"]), ("theme", .int 1)],
    [("project_order", .null), ("theme", .int 2)]] (by decide)
  exact ⟨out, w', ran, by rw [read]; rfl, by rw [read]; rfl, by rw [read]; rfl, by rw [read]; rfl⟩

open Value

variable {fixes prefs : Fields} {i j : Insight} {is out : List Insight} {names order : List Value}

/-! ## One insight -/

def amended (fixes : Fields) (i : Insight) : Insight :=
  match Fields.get? fixes i.projectName with
  | some (.object fix) => { i with analyzedAt := ((Fields.get? fix "analyzed_at").getD .null).orElse i.analyzedAt }
  | _ => i

theorem corrected_eq {v : Value} (fixing : v.orElse (.object []) = .object fixes) (i : Insight) :
    corrected v i = .ok (amended fixes i) := by
  rw [orElse] at fixing
  cases truthy : v.truthy with
  | false =>
    rw [truthy] at fixing
    cases fixing
    simp [corrected, truthy, amended, Fields.get?, pure, Except.pure]
  | true =>
    rw [truthy] at fixing
    subst fixing
    rw [corrected, truthy, fieldD, amended]
    cases Fields.get? fixes i.projectName with
    | none => rfl
    | some fix => cases fix <;> rfl

def spot (order : List Value) (i : Insight) : Nat := place order i.projectName

def timeText (i : Insight) : String := i.analyzedAt.textOrEmpty

theorem place_spec (order : List Value) (name : String) : (.text name ∉ order → place order name = order.length) ∧
      (.text name ∈ order → order[place order name]? = some (.text name) ∧
        ∀ k, place order name < k → order[k]? ≠ some (.text name)) := by
  have own : text name == text name := by simp [text_beq]
  unfold place
  cases found : order.reverse.findIdx? (· == .text name) with
  | none =>
    refine ⟨fun _ => rfl, fun member => ?_⟩
    have other := findIdx?_eq_none_iff.1 found _ (mem_reverse.2 member)
    rw [own] at other
    cases other
  | some n =>
    obtain ⟨inside, same, before⟩ := findIdx?_eq_some_iff_getElem.1 found
    rw [length_reverse] at inside
    have here : order[order.length - 1 - n]? = some (.text name) := by
      rw [← getElem?_reverse inside, getElem?_eq_getElem (by simpa using inside), eq_text_of_beq (.inl same)]
    refine ⟨fun absent => absurd (mem_of_getElem? here) absent, fun _ => ⟨here, fun k later there => ?_⟩⟩
    replace later : order.length - 1 - n < k := later
    obtain ⟨short, there⟩ := List.getElem?_eq_some_iff.1 there
    -- A later place would be found first from the end.
    have first := before (order.length - 1 - k) (by omega)
    rw [getElem_reverse] at first
    simp only [show order.length - 1 - (order.length - 1 - k) = k by omega, there, own, not_true] at first

/-! ## The order -/

def precedes (order : List Value) (i j : Insight) : Bool :=
  decide (spot order i < spot order j) || spot order i == spot order j && decide (timeText i < timeText j)

theorem ranks_precedes (order : List Value) : Ranks (precedes order) where
  asymm {i j} before := by
    simp only [precedes, Bool.or_eq_true, Bool.and_eq_true, beq_iff_eq, decide_eq_true_eq, Bool.or_eq_false_iff,
      decide_eq_false_iff_not, Bool.and_eq_false_iff, beq_eq_false_iff_ne] at before ⊢
    rcases before with less | ⟨same, less⟩
    · exact ⟨by omega, .inl (by omega)⟩
    · exact ⟨by omega, .inr (String.lt_asymm less)⟩
  apart {i k} j before := by
    have texts := (ranks_strings timeText).apart (a := i) (c := k) j
    simp only [precedes, Bool.or_eq_true, Bool.and_eq_true, beq_iff_eq, decide_eq_true_eq] at before texts ⊢
    rcases before with less | ⟨same, less⟩
    · rcases Nat.lt_or_ge (spot order i) (spot order j) with first | second
      · exact .inl (.inl first)
      · exact .inr (.inl (by omega))
    · rcases Nat.lt_trichotomy (spot order i) (spot order j) with first | equal | second
      · exact .inl (.inl first)
      · exact (texts less).imp (fun early => .inr ⟨equal, early⟩) fun late => .inr ⟨by omega, late⟩
      · exact .inr (.inl (by omega))

theorem comesBefore_eq {s t : String} (first : i.analyzedAt = .text s) (second : j.analyzedAt = .text t) :
    comesBefore order i j = .ok (precedes order i j) := by
  have same : (i.analyzedAt == j.analyzedAt) = (s == t) := by rw [first, second, text_beq]
  have compared : before i.analyzedAt j.analyzedAt = .ok (decide (s < t)) := by rw [first, second, before]
  have texts : timeText i = s ∧ timeText j = t := by rw [timeText, timeText, first, second]; exact ⟨rfl, rfl⟩
  rw [comesBefore, precedes, same, compared, texts.1, texts.2, spot, spot]
  by_cases places : place order i.projectName = place order j.projectName
  · by_cases equal : s = t <;> simp [places, equal]
  · simp [places]

structure Arranged (order names : List Value) (is out : List Insight) : Prop where
  perm : out.Perm is
  showcased : out.Pairwise fun i j => isShown names j → isShown names i
  placed : out.Pairwise fun i j => isShown names i = isShown names j → spot order i ≤ spot order j
  timed : out.Pairwise fun i j =>
    isShown names i = isShown names j → spot order i = spot order j → ¬ timeText j < timeText i
  stable : ∀ b p t, out.filter (fun i => isShown names i == b && spot order i == p && timeText i == t) =
    is.filter (fun i => isShown names i == b && spot order i == p && timeText i == t)

theorem showcased_all (names : List Value) (is : List Insight) :
    showcased names false is = is.filter (isShown names) ++ is.filter (!isShown names ·) := by
  cases names with
  | nil =>
    have none_ (i : Insight) : isShown [] i = false := rfl
    simp [showcased, none_]
  | cons n names => rfl

theorem filter_blocks {α : Type} {p q : α → Bool} {b : Bool} (one : ∀ x, q x → p x = b) (xs : List α) :
    (xs.filter p ++ xs.filter (!p ·)).filter q = xs.filter q := by
  have first : (fun x => q x && p x) = fun x => b && q x := funext fun x => by
    cases held : q x <;> simp [one, held]
  have second : (fun x => q x && !p x) = fun x => !b && q x := funext fun x => by
    cases held : q x <;> simp [one, held]
  rw [filter_append, filter_filter, filter_filter, first, second]
  cases b <;> simp

theorem arranged_showcased (sorts : Sorts (precedes order) is out) : Arranged order names is (showcased names false out) := by
  have sorted_ : out.Pairwise fun i j => spot order i ≤ spot order j ∧
      (spot order i = spot order j → ¬ timeText j < timeText i) := sorts.ordered.imp fun behind => by
    simp only [precedes, Bool.or_eq_false_iff, decide_eq_false_iff_not, Bool.and_eq_false_iff, beq_eq_false_iff_ne] at behind
    exact ⟨by omega, fun same => behind.2.resolve_left fun other => other same.symm⟩
  -- What holds of all sorted insights holds in either block; between the blocks nothing is asked.
  have blocks : (out.filter (isShown names) ++ out.filter (!isShown names ·)).Pairwise fun i j =>
      isShown names i = isShown names j → spot order i ≤ spot order j ∧
        (spot order i = spot order j → ¬ timeText j < timeText i) := by
    have held := sorted_.imp (S := fun i j => isShown names i = isShown names j → spot order i ≤ spot order j ∧
      (spot order i = spot order j → ¬ timeText j < timeText i)) fun held _ => held
    refine pairwise_append.2 ⟨held.filter _, held.filter _, ?_⟩
    simp_all
  rw [showcased_all]
  constructor
  · exact (filter_append_perm _ out).trans sorts.perm
  · refine pairwise_append.2 ⟨?_, ?_, fun i first _ _ _ => (mem_filter.1 first).2⟩
    · exact pairwise_of_forall_mem_list fun i first _ _ _ => (mem_filter.1 first).2
    · exact pairwise_of_forall_mem_list fun _ _ j second shown => by simp_all
  · exact blocks.imp fun held same => (held same).1
  · exact blocks.imp fun held same => (held same).2
  · intro b p t
    rw [filter_blocks (b := b) fun i held => by simp_all, sorts.stable _ fun i j first second => ?_]
    simp only [Bool.and_eq_true, beq_iff_eq] at first second
    simp [precedes, first, second]

/-! ## Presenting -/

/-- Preferences that tell an order, names to showcase and corrections. -/
structure Tells (prefs : Fields) (order names : List Value) (fixes : Fields) : Prop where
  given : prefs ≠ []
  ordering : orderOf prefs = .ok order
  showing : showcaseOf prefs = .ok names
  fixing : (read prefs "chronology_corrections").orElse (.object []) = .object fixes

/-- The projects that applying preferences returns, wherever the log and the stored preferences are. -/
def Presents (prefs : Fields) (only : Bool) (label : Value) (is out : List Insight) : Prop :=
  ∃ v, (∀ log file w, (apply log file is prefs only label).outcome w = (.ok v, w)) ∧
    v.get? "projects" = some (.list (out.map (·.toValue)))

theorem presents_sorted (tells : Tells prefs order names fixes) (some_ : is ≠ [])
    (timed : ∀ i ∈ is, ∃ s, (amended fixes i).analyzedAt = .text s) (label : Value) :
    ∃ out, Sorts (precedes order) ((labelled label is).map (amended fixes)) out ∧
      (∀ i ∈ (labelled label is).map (amended fixes), ∃ s, i.analyzedAt = .text s) ∧
      ∀ only, Presents prefs only label is (showcased names only out) := by
  have fixed : (labelled label is).mapM (corrected (read prefs "chronology_corrections")) =
      .ok ((labelled label is).map (amended fixes)) := by
    rw [show corrected _ = _ from funext (corrected_eq tells.fixing)]
    exact mapM_pure
  have texts : ∀ i ∈ (labelled label is).map (amended fixes), ∃ s, i.analyzedAt = .text s := by
    rw [forall_mem_map]
    intro i member
    refine timed i ?_
    unfold labelled at member
    split at member
    · exact (mem_filter.1 member).1
    · exact member
  obtain ⟨out, run, sorts⟩ := sortBy_spec (comesBefore order) (ranks_precedes order) fun i first j second => by
    obtain ⟨s, text⟩ := texts i first
    obtain ⟨t, text'⟩ := texts j second
    exact comesBefore_eq text text'
  refine ⟨out, sorts, texts, fun only => ?_⟩
  have arranged : arrange prefs only label is = .ok (showcased names only out) := by
    simp [arrange, fixed, tells.ordering, run, tells.showing, bind, Except.bind, pure, Except.pure]
  obtain ⟨v, presented, projects⟩ : ∃ v, present prefs only label is = .ok v ∧
      v.get? "projects" = some (.list ((showcased names only out).map (·.toValue))) := by
    rw [present, arranged, tells.showing]
    exact ⟨_, rfl, rfl⟩
  refine ⟨v, fun log file w => ?_, projects⟩
  rw [apply, isEmpty_eq_false_iff.2 tells.given, isEmpty_eq_false_iff.2 some_]
  show (liftM (present prefs only label is) : Action Value).outcome w = _
  rw [outcome_lift, presented]

/-- Presented are the insights with the label, their times corrected: the showcased before the others, in each block by
their last place in the wanted order and then by the text of their time, and ties as they were given.  If only showcased
ones are asked for and some are named, they are presented alone. -/
theorem presented_stably (label : Value) (tells : Tells prefs order names fixes) (some_ : is ≠ [])
    (timed : ∀ i ∈ is, ∃ s, (amended fixes i).analyzedAt = .text s) :
    ∃ out, Arranged order names ((labelled label is).map (amended fixes)) out ∧ Presents prefs false label is out ∧
      (names ≠ [] → Presents prefs true label is (out.filter (isShown names))) ∧
      ∀ name, (.text name ∉ order → place order name = order.length) ∧
        (.text name ∈ order → order[place order name]? = some (.text name) ∧
          ∀ k, place order name < k → order[k]? ≠ some (.text name)) := by
  obtain ⟨out, sorts, -, presents⟩ := presents_sorted tells some_ timed label
  refine ⟨_, arranged_showcased sorts, presents false, fun listed => ?_, place_spec order⟩
  have alone : (showcased names false out).filter (isShown names) = showcased names true out := by
    rw [showcased_all, filter_blocks (b := true) (fun _ shown => shown)]
    simp [showcased, listed]
  rw [alone]
  exact presents true

def analyzed (name time : String) : Insight :=
  ⟨.null, name, .null, .text time, [], [], [], .null, .null, "", .null, default, [], .null, .null, .null⟩

def years : List Insight := [analyzed "b" "2020", analyzed "a" "2021", analyzed "c" "2022"]

/-- A name that is listed twice counts at its last place, behind the other one; a showcased project is first. -/
theorem last_place_counts :
    ∃ out, Arranged [.text "b", .text "a", .text "b"] [.text "c"] years out ∧
      Presents [("project_order", .list [.text "b", .text "a", .text "b"]), ("showcase_projects", .list [.text "c"])]
        false .null years out := by
  have tells : Tells [("project_order", .list [.text "b", .text "a", .text "b"]),
      ("showcase_projects", .list [.text "c"])] _ _ _ := ⟨by simp, rfl, rfl, rfl⟩
  obtain ⟨out, arranged, presents, -⟩ :=
    presented_stably .null tells (show years ≠ [] by simp [years]) (by simp [years, analyzed, amended, Fields.get?])
  exact ⟨out, arranged, presents⟩

/-! ## Time -/

def SamePlace (order names : List Value) (i j : Insight) : Prop :=
  isShown names i = isShown names j ∧ spot order i = spot order j

/-- Insights of one place come in the order of time. -/
def Chronological (order names : List Value) (out : List Insight) : Prop :=
  out.Pairwise fun i j => SamePlace order names i j → i.time.instant ≤ j.time.instant

/-- Texts of one place do not come before texts of an earlier time. -/
def TextsFollow (order names : List Value) (is : List Insight) : Prop :=
  ∀ i ∈ is, ∀ j ∈ is, SamePlace order names i j → timeText i < timeText j → i.time.instant ≤ j.time.instant

theorem chronological_iff (arranged : Arranged order names is out) (texts : ∀ i ∈ is, ∃ s, i.analyzedAt = .text s) :
    Chronological order names out ↔ TextsFollow order names is := by
  constructor
  · intro chronological i first j second
    -- Of two insights either may be presented first, so the relation is made symmetric.
    have both : out.Pairwise fun i j => SamePlace order names i j →
        (timeText i < timeText j → i.time.instant ≤ j.time.instant) ∧
          (timeText j < timeText i → j.time.instant ≤ i.time.instant) := by
      refine (chronological.and arranged.timed).imp fun ⟨early, ordered⟩ same => ?_
      exact ⟨fun _ => early same, fun less => absurd less (ordered same.1 same.2)⟩
    have symm : Std.Symm fun i j => SamePlace order names i j →
        (timeText i < timeText j → i.time.instant ≤ j.time.instant) ∧
          (timeText j < timeText i → j.time.instant ≤ i.time.instant) :=
      ⟨fun i j held same => (held ⟨same.1.symm, same.2.symm⟩).symm⟩
    have held := both.forall_of_forall (fun i _ _ => ⟨fun _ => Int.le_refl _, fun _ => Int.le_refl _⟩)
      (arranged.perm.mem_iff.2 first) (arranged.perm.mem_iff.2 second)
    exact fun same => (held same).1
  · intro follow
    refine arranged.timed.imp_of_mem fun {i j} first second ordered same => ?_
    replace first := arranged.perm.mem_iff.1 first
    replace second := arranged.perm.mem_iff.1 second
    by_cases less : timeText i < timeText j
    · exact follow i first j second same less
    · have equal : timeText i = timeText j := String.le_antisymm (ordered same.1 same.2) less
      obtain ⟨s, text⟩ := texts i first
      obtain ⟨t, text'⟩ := texts j second
      rw [timeText, timeText, text, text'] at equal
      have same : i.time = j.time := by rw [time, time, text, text', show s = t from equal]
      exact Int.le_of_eq (congrArg _ same)

/-- Insights of one place are presented in the order of time exactly if no text comes before one of an earlier time. -/
theorem presented_chronologically_iff (label : Value) (tells : Tells prefs order names fixes) (some_ : is ≠ [])
    (timed : ∀ i ∈ is, ∃ s, (amended fixes i).analyzedAt = .text s) :
    ∃ out, Presents prefs false label is out ∧ out.Perm ((labelled label is).map (amended fixes)) ∧
      (Chronological order names out ↔ TextsFollow order names ((labelled label is).map (amended fixes))) := by
  obtain ⟨out, sorts, texts, presents⟩ := presents_sorted tells some_ timed label
  have arranged : Arranged order names _ _ := arranged_showcased sorts
  exact ⟨_, presents false, arranged.perm, chronological_iff arranged texts⟩

/-- Five hours east of universal time, ten o'clock is earlier than nine o'clock is there, and presented later. -/
theorem zones_break_chronology :
    Presents [("highlight_skills", .list [])] false .null
        [analyzed "a" "2024-01-01T10:00:00+05:00", analyzed "b" "2024-01-01T09:00:00+00:00"]
        [analyzed "b" "2024-01-01T09:00:00+00:00", analyzed "a" "2024-01-01T10:00:00+05:00"] ∧
      ¬ Chronological [] [] [analyzed "b" "2024-01-01T09:00:00+00:00", analyzed "a" "2024-01-01T10:00:00+05:00"] := by
  refine ⟨⟨_, fun _ _ _ => rfl, rfl⟩, ?_⟩
  unfold Chronological SamePlace
  decide +kernel

def twoDays : List Insight := [analyzed "a" "2024-01-02T00:00:00", analyzed "b" "2024-01-01T00:00:00+00:00"]

/-- Days in universal time and without a zone are presented in their order. -/
theorem days_chronological :
    ∃ out, Presents [("highlight_skills", .list [])] false .null twoDays out ∧ Chronological [] [] out := by
  have tells : Tells [("highlight_skills", .list [])] _ _ _ := ⟨by simp, rfl, rfl, rfl⟩
  obtain ⟨out, presents, -, chronological⟩ := presented_chronologically_iff .null tells
    (show twoDays ≠ [] by simp [twoDays]) (by simp [twoDays, analyzed, amended, Fields.get?])
  refine ⟨out, presents, chronological.2 ?_⟩
  unfold TextsFollow SamePlace
  decide +kernel

end Folio.Insight.Preferences

namespace Folio.Insight

/-! ## The composite score -/

open Contributor

variable {i j : Insight} {p q : Int} {who : Option String}

/-- A whole share in percent is told for a contributor. -/
def Shares (i : Insight) (who : Option String) (p : Int) : Prop :=
  ∃ data, i.dataOf? who = some data ∧ read data "contribution_percentage" (read data "percentage" .null) = .int p

def volume (i : Insight) (who : Option String) : Int := max 0 (i.contributionCount who)

/-- The composite score over exact numbers, at the usual scale. -/
def exactScore (i : Insight) (who : Option String) (p : Int) : ℚ :=
  (composed 0 (i.basis who (Decimal.ofInt p)) (p : ℚ) (i.volume who) (1 / 10000)).1

theorem exactScore_eq (shares : Shares i who p) : i.exactScore who p = p + i.volume who / 10000 := by
  obtain ⟨data, here, told⟩ := shares
  have share : i.basis who (Decimal.ofInt p) = .share := by
    rw [basis]
    cases first : Fields.get? data "contribution_percentage" <;> simp_all [Contributor.read, Value.isNull]
  simp only [exactScore, composed, tieBreak, share]
  ring

/-- The count overrules the shares as soon as it is larger by ten thousand for every percent.  Below that it breaks
ties only. -/
theorem exactScore_lt_iff (first : Shares i who p) (second : Shares j who q) :
    (j.exactScore who q < i.exactScore who p ↔ j.volume who - i.volume who < 10000 * (p - q)) ∧
    (|j.volume who - i.volume who| < 10000 →
      (j.exactScore who q < i.exactScore who p ↔ q < p ∨ q = p ∧ j.volume who < i.volume who)) := by
  have less : j.exactScore who q < i.exactScore who p ↔ j.volume who - i.volume who < 10000 * (p - q) := by
    rw [exactScore_eq first, exactScore_eq second, ← Int.cast_lt (R := ℚ)]
    push_cast
    constructor <;> intro less <;> linarith
  refine ⟨less, fun near => ?_⟩
  rw [abs_lt] at near
  rw [less]
  omega

def sharing (percent count : Int) : Insight :=
  ⟨.null, "", .null, .null, [], [], [], .null, .null, "", .null,
    [("Ann", [("contribution_percentage", .int percent), ("contribution_count", .int count)])], [], .null, .null, .null⟩

theorem shares_sharing (percent count : Int) : Shares (sharing percent count) (some "Ann") percent := ⟨_, rfl, rfl⟩

/-- Equal shares are told apart by their counts. -/
theorem count_breaks_tie : (sharing 10 1).exactScore (some "Ann") 10 < (sharing 10 2).exactScore (some "Ann") 10 :=
  (exactScore_lt_iff (shares_sharing 10 2) (shares_sharing 10 1)).1.2 (by decide)

/-- A smaller share with twenty thousand contributions has the larger score. -/
theorem count_overrules_share :
    Shares (sharing 11 0) (some "Ann") 11 ∧ Shares (sharing 10 20000) (some "Ann") 10 ∧
      (sharing 11 0).exactScore (some "Ann") 11 < (sharing 10 20000).exactScore (some "Ann") 10 := by
  refine ⟨shares_sharing 11 0, shares_sharing 10 20000, ?_⟩
  have counts : (sharing 11 0).volume (some "Ann") = 0 ∧ (sharing 10 20000).volume (some "Ann") = 20000 := by decide
  rw [exactScore_eq (shares_sharing 11 0), exactScore_eq (shares_sharing 10 20000), counts.1, counts.2]
  norm_num

end Folio.Insight
