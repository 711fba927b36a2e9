/-
# Proofs.Code.Loops -- figures on loops

How deep loops lie in one another is measured function by function, in each language in its own way.  What is told of a
source is consistent: loops lie in one another in no more functions than there are, and in some exactly when the
greatest depth is two or more.  Sums and the maximum keep that (`consistent_sum`), so it holds of the figures of a
language and of a project (`loops_consistent`).
-/
import Folio.Proofs.Code.Figures

namespace Folio.Code

open Action List Value

variable {reports : List Value} {files m : Value} {l l' : Loops} {ls : List Loops} {ps : Parsers} {d : Disk} {p : Path}

/-- Loops lie in one another in no more functions than there are, and in some of them exactly when any do. -/
def Loops.Consistent (l : Loops) : Prop := l.nested ≤ l.functions ∧ (2 ≤ l.depth ↔ 1 ≤ l.nested)

namespace Loops

theorem Consistent.count (consistent : l.Consistent) (depth : Nat) : (l.count depth).Consistent := by
  obtain ⟨fewer, deep⟩ := consistent
  unfold Consistent Loops.count
  dsimp only [Nat.max_def]
  split <;> split <;> omega

theorem consistent_ofDepths (depths : List Nat) : (ofDepths depths).Consistent :=
  foldlRecOn depths count (by simp [Consistent, none]) fun _ consistent depth _ => consistent.count depth

theorem Consistent.join (consistent : l.Consistent) (other : l'.Consistent) :
    Consistent ⟨l.functions + l'.functions, l.nested + l'.nested, Nat.max l.depth l'.depth⟩ := by
  unfold Consistent at *
  dsimp only [Nat.max_def]
  split <;> omega

/-- The figures on loops of several sources. -/
def sum (ls : List Loops) : Loops :=
  ⟨(ls.map functions).sum, (ls.map nested).sum, greatest (ls.map depth)⟩

theorem consistent_sum (each : ∀ l ∈ ls, l.Consistent) : (sum ls).Consistent := by
  induction ls with
  | nil => exact consistent_ofDepths []
  | cons l ls ih => exact (each l mem_cons_self).join (ih fun l member => each l (mem_cons_of_mem _ member))

end Loops

namespace LoopCounts

def of (l : Loops) : LoopCounts := ⟨.int l.functions, .int l.nested, .int l.depth⟩

theorem total_of (ls : List Loops) : total (ls.map of) = of (.sum ls) := by
  have max_ (a b : Nat) : Number.max (.int a) (.int b) = .int (max a b : Nat) := by
    simp [Number.max, Number.lt, Number.fraction?]
    grind
  -- The sums so far are carried along.
  suffices run : ∀ a : Loops, (⟨((ls.map of).map (·.functions)).foldl .add (.int a.functions),
      ((ls.map of).map (·.nested)).foldl .add (.int a.nested),
      ((ls.map of).map (·.depth)).foldl .max (.int a.depth)⟩ : LoopCounts) = of (.sum (a :: ls)) by
    exact (run .none).trans (by simp [Loops.sum, Loops.none, greatest_cons])
  induction ls with
  | nil => simp [of, Loops.sum, greatest]
  | cons l ls ih =>
    intro a
    have step := ih ⟨a.functions + l.functions, a.nested + l.nested, max a.depth l.depth⟩
    simp only [map_cons, foldl_cons, of, max_] at step ⊢
    refine step.trans ?_
    simp [Loops.sum, greatest_cons, Nat.add_assoc, Nat.max_assoc]

end LoopCounts

/-- The section on loops of a report or of figures has these numbers; one that is not there counts as zero. -/
def Tells (l : Loops) (m : Value) : Prop := ∃ fs, m.get? "complexity" = some (.object fs) ∧
  counter (.object fs) "total_functions" = .ok (.int l.functions) ∧
  counter (.object fs) "functions_with_nested_loops" = .ok (.int l.nested) ∧
  counter (.object fs) "max_loop_depth" = .ok (.int l.depth)

theorem Tells.ofReport (tells : Tells l m) : LoopCounts.ofReport m = .ok (.of l) := by
  obtain ⟨fs, section_, functions, nested, depth⟩ := tells
  have read : sectionOf m "complexity" = .ok (.object fs) := by
    rw [sectionOf, fieldD_of_isObject (isObject_of_get? section_), section_]
    cases fs <;> rfl
  simp only [LoopCounts.ofReport, read, functions, nested, depth, bind, Except.bind, LoopCounts.of]

theorem Tells.ofMetrics (tells : Tells l m) : LoopCounts.ofMetrics m = .ok (.of l) := by
  obtain ⟨fs, section_, functions, nested, depth⟩ := tells
  simp only [LoopCounts.ofMetrics, deepCounter, fieldD_of_isObject (isObject_of_get? section_), section_,
    Option.getD_some, functions, nested, depth, bind, Except.bind, LoopCounts.of]

theorem total_of_mapM {read : Value → Except Fault LoopCounts} {F : Value → Loops}
    (tells : ∀ r ∈ reports, read r = .ok (.of (F r))) :
    Gives (LoopCounts.total · = .of (.sum (reports.map F))) (reports.mapM read) := by
  rw [mapM_eq_ok tells, ← Function.comp_def, ← map_map]
  exact gives_ok (LoopCounts.total_of _)

theorem tells_toValue {c : LoopCounts} {ratio : Float} {more : Fields}
    (there : m.get? "complexity" = some (c.toValue ratio more)) (same : c = .of l) : Tells l m := by
  subst same
  exact ⟨_, there, rfl, rfl, rfl⟩

theorem Tells.set (tells : Tells l m) {key : String} (ne : "complexity" ≠ key) (v : Value) : Tells l (m.set key v) := by
  obtain ⟨fs, there, rest⟩ := tells
  exact ⟨fs, (get?_set_ne m ne v).trans there, rest⟩

theorem lasts_tells (l : Loops) : Lasts (Tells l) :=
  lasts_of_set (by decide) fun _ _ v ne tells => tells.set ne v

section
variable {F : Value → Loops} (tells : ∀ r ∈ reports, Tells (F r) r)
include tells

theorem tells_classMetrics : Gives (Tells (.sum (reports.map F))) (classMetrics reports files) := by
  have read := total_of_mapM fun r member => (tells r member).ofReport
  have tally : Gives (·.loops = .of (.sum (reports.map F))) (ClassTally.of reports) :=
    .bind fun _ _ => .bind fun _ _ => .bind fun _ _ => .bind fun _ _ => .bind fun _ all => gives_ok (read all)
  exact .bind fun t made => .bind fun _ _ => (lasts_tells _).told (tells_toValue rfl (tally made))

theorem tells_structMetrics : Gives (Tells (.sum (reports.map F))) (structMetrics reports files) := by
  have read := total_of_mapM fun r member => (tells r member).ofReport
  have tally : Gives (·.loops = .of (.sum (reports.map F))) (StructTally.of reports) :=
    .bind fun _ _ => .bind fun _ _ => .bind fun _ _ => .bind fun _ _ => .bind fun _ _ => .bind fun _ all =>
      gives_ok (read all)
  exact .bind fun t made => .bind fun _ _ => .bind fun _ _ =>
    (lasts_tells _).told (tells_toValue rfl (tally made))

end

/-- What a report or figures tell about loops is consistent. -/
def Sound (m : Value) : Prop := ∃ l : Loops, l.Consistent ∧ Tells l m

theorem Sound.set (sound : Sound m) {key : String} (ne : "complexity" ≠ key) (v : Value) : Sound (m.set key v) :=
  sound.imp fun _ own => own.imp_right fun tells => tells.set ne v

theorem lasts_sound : Lasts Sound :=
  lasts_of_set (by decide) fun _ _ v ne sound => sound.set ne v

theorem sound_drawn (each : ∀ r ∈ reports, Sound r) :
    Gives Sound (classMetrics reports files) ∧ Gives Sound (structMetrics reports files) := by
  choose! F consistent tells using each
  have whole := Loops.consistent_sum (forall_mem_map.2 consistent)
  exact ⟨fun _ made => ⟨_, whole, tells_classMetrics tells made⟩,
    fun _ made => ⟨_, whole, tells_structMetrics tells made⟩⟩

theorem sound_combine {languages : Fields} (each : ∀ l ∈ languages, Sound l.2) :
    Gives Sound (combine languages files) := by
  choose! F consistent tells using forall_mem_map.2 each
  refine .bind fun _ _ => .bind fun j joint => .bind fun _ _ => .bind fun _ _ => .bind fun _ _ => lasts_sound.told ?_
  iterate 9 obtain ⟨_, -, joint⟩ := ok_of_bind joint
  obtain ⟨loops, read, joint⟩ := ok_of_bind joint
  iterate 3 obtain ⟨_, -, joint⟩ := ok_of_bind joint
  cases joint
  exact ⟨_, Loops.consistent_sum (forall_mem_map.2 consistent),
    tells_toValue rfl (total_of_mapM (fun m member => (tells m member).ofMetrics) read)⟩

theorem sound_aggregate (each : ∀ r ∈ reports, Sound r) : Gives Sound (aggregate reports files) :=
  gives_aggregate lasts_sound (fun _ within _ => sound_drawn fun r member => each r (within member))
    fun _ => sound_combine

theorem sound_report {r : FileReport} (depths : Option (List Nat)) (measured : r.complexity = depths.map .ofDepths) :
    Sound r.toValue := by
  cases depths with
  | none => exact ⟨.none, Loops.consistent_ofDepths [], [], by rw [FileReport.toValue, measured]; rfl, rfl, rfl, rfl⟩
  | some ds => exact ⟨_, Loops.consistent_ofDepths ds, _, by rw [FileReport.toValue, measured]; rfl, rfl, rfl, rfl⟩

theorem sound_classReport (file module : String) (classes : List Value) : Sound (classReport file module classes) :=
  ⟨.none, Loops.consistent_ofDepths [], [], rfl, rfl, rfl, rfl⟩

theorem Sound.replace (sound : Sound m) (consistent : l.Consistent) {fs : Fields}
    (tells : Tells l (.object [("complexity", .object fs)])) : Sound (m.set "complexity" (.object fs)) := by
  obtain ⟨_, -, _, there, -⟩ := sound
  obtain ⟨_, ⟨⟩, counts⟩ := tells
  exact ⟨l, consistent, fs, get?_set_self (isObject_of_get? there) _ _, counts⟩

/-! ## A project -/

theorem sound_reportC (d : Disk) (p : Path) : Sound (reportC d p).toValue := by
  unfold reportC
  split
  · exact sound_report (some _) rfl
  · exact sound_report none rfl

theorem sound_reportCpp (ps : Parsers) (d : Disk) (p : Path) : Sound (reportCpp ps d p).1.toValue := by
  unfold reportCpp Cpp.report
  split <;> try split
  all_goals first | exact sound_report (some _) rfl | exact sound_report none rfl

theorem sound_reportCsharp (ps : Parsers) (d : Disk) (p : Path) : Sound (reportCsharp ps d p).toValue := by
  unfold reportCsharp Csharp.report
  split <;> try split
  all_goals first | exact sound_report (some _) rfl | exact sound_report none rfl

theorem sound_reportJava? {r : FileReport} (made : r ∈ reportJava? ps d p) : Sound r.toValue := by
  unfold reportJava? at made
  split at made
  · cases made
  · cases made
    split
    · exact sound_report (some _) rfl
    · exact sound_report none rfl

theorem Python.consistent_usage (root : Path) (sources : List (Path × Parsed Ast)) :
    (findings root sources).usage.loops.Consistent := by
  refine foldlRecOn (motive := fun u : Usage => u.loops.Consistent) _ _ (Loops.consistent_ofDepths [])
    fun a consistent u member => ?_
  obtain ⟨t, -, rfl⟩ := mem_map.1 member
  have own : (Usage.ofTree t.2).loops.Consistent := Loops.consistent_ofDepths _
  exact consistent.join own

theorem JavaScript.consistent_loops (f : Findings) : f.loops.Consistent := by
  obtain ⟨fewer, deep⟩ := Loops.consistent_ofDepths (f.classes.flatMap fun c => c.defined.map (·.2))
  exact ⟨fewer.trans (Nat.le_add_right ..), deep⟩

theorem sound_languageFigures (language : String) (files : List Path) :
    Gives (Sound ·.1) (languageFigures ps d root language files) := by
  unfold languageFigures
  split <;> refine .bind fun m made => gives_ok ?_
  case h_1 =>
    obtain ⟨m, plain, made⟩ := ok_of_bind made
    have sound := sound_aggregate (forall_mem_map.2 fun _ _ => sound_classReport ..) plain
    refine lasts_sound.told (.set ?_ (by decide) _) made
    exact (sound.set (by decide) _).replace (Python.consistent_usage _ _) ⟨_, rfl, rfl, rfl, rfl⟩
  case h_3 =>
    obtain ⟨reports, listed, made⟩ := ok_of_bind made
    obtain ⟨m, plain, made⟩ := ok_of_bind made
    have each := gives_mapM (Q := Sound) (fun _ _ => .bind fun _ _ => gives_ok (sound_classReport ..)) listed
    refine lasts_sound.told (.replace ?_ (JavaScript.consistent_loops _) ⟨_, rfl, rfl, rfl, rfl⟩) made
    exact ((sound_aggregate each plain).set (by decide) _).set (by decide) _
  case h_2 =>
    refine sound_aggregate (forall_mem_map.2 fun r member => ?_) made
    obtain ⟨p, -, there⟩ := mem_filterMap.1 member
    exact sound_reportJava? there
  case h_4 => exact sound_aggregate (forall_mem_map.2 (forall_mem_map.2 fun p _ => sound_reportC d p)) made
  case h_5 =>
    exact sound_aggregate (forall_mem_map.2 (forall_mem_map.2 (forall_mem_map.2 fun p _ => sound_reportCpp ps d p))) made
  case h_6 => exact sound_aggregate (forall_mem_map.2 (forall_mem_map.2 fun p _ => sound_reportCsharp ps d p)) made

/-- In what is told about loops, of a source, of a language or of a whole project, no more functions have loops in one
another than there are, and some have exactly when loops lie in one another at all. -/
theorem loops_consistent (ps : Parsers) (d : Disk) (root : Path) :
    (∀ p, Sound (reportC d p).toValue ∧ Sound (reportCpp ps d p).1.toValue ∧ Sound (reportCsharp ps d p).toValue ∧
      ∀ r ∈ reportJava? ps d p, Sound r.toValue) ∧
    (∀ reports, (∀ r ∈ reports, Sound r) → ∀ files,
      (∀ language, Gives Sound (metricsOf language reports files)) ∧ Gives Sound (aggregate reports files)) ∧
    (∀ s, Gives (Sound ·.2.1) (languageMetrics ps d root s)) ∧ Gives (Sound ·.1) (survey ps d root) := by
  have own (root : Path) (s : String × List Path) : Gives (Sound ·.2.1) (languageMetrics ps d root s) :=
    .bind fun _ figures => gives_ok ((sound_languageFigures _ _ figures).set (by decide) _)
  refine ⟨fun p => ⟨sound_reportC d p, sound_reportCpp ps d p, sound_reportCsharp ps d p, fun _ => sound_reportJava?⟩,
    fun reports each files => ⟨fun _ => gives_metricsOf lasts_sound _ (sound_drawn each), sound_aggregate each⟩,
    own root, ?_⟩
  refine .bind fun root _ => .bind fun found each => ?_
  replace each := gives_mapM (fun s _ => own root s) each
  match found with
  | [] => exact .bind fun _ none => gives_ok (sound_aggregate (by simp) none)
  | [l] => exact gives_ok (each l mem_cons_self)
  | _ :: _ :: _ => exact .bind fun _ whole => gives_ok (sound_combine (forall_mem_map.2 each) whole)

/-- A source with a function that has a loop in a loop. -/
def nestedSource : Parsers × Disk :=
  let loops : Ast := .node "For" [("body", .node "While" [])]
  ({ Parsers.refusing with python := fun _ => some (.node "FunctionDef" [("body", loops)]) },
    ⟨.dir [("a.py", .file ⟨.text "", default, 0⟩)], ⟨"/", []⟩, "", 0⟩)

theorem sound_of_nestedSource : ∃ r, survey nestedSource.1 nestedSource.2 ⟨"/", []⟩ = .ok r ∧ Sound r.1 := by
  obtain ⟨r, _, made⟩ := ok_of_isOk (x := (survey nestedSource.1 nestedSource.2 ⟨"/", []⟩, ())) (by decide +kernel)
  exact ⟨r, (Prod.mk.inj made).1, (loops_consistent _ _ _).2.2.2 (Prod.mk.inj made).1⟩

end Folio.Code
