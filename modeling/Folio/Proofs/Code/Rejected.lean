/-
# Proofs.Code.Rejected -- sources that their parser rejects

Figures are drawn with an empty list of rejected files, whatever the reports on the files say.  Only those of Python are
given more of them afterwards, and the figures of several languages have what those of each language have.
-/
import Folio.Proofs.Code.Figures

namespace Folio.Code

open Action List

variable {α : Type} {reports xs : List Value} {files m : Value} {ps : Parsers} {d : Disk} {root : Path}

theorem forall₂_of_mapM {β : Type} {f : α → Except Fault β} (as : List α) : Gives (Forall₂ (f · = .ok ·) as) (as.mapM f) := by
  induction as with
  | nil => exact gives_ok .nil
  | cons a as ih =>
    rw [mapM_cons]
    exact .bind fun b first => .bind fun bs rest => gives_ok (.cons first (ih rest))

/-! ## Figures of one language -/

/-- The figures list these files as rejected. -/
def Lists (xs : List Value) (figures : Value) : Prop := figures.get? "syntax_errors" = some (.list xs)

theorem Lists.set (lists : Lists xs m) {key : String} (ne : "syntax_errors" ≠ key) (v : Value) : Lists xs (m.set key v) :=
  (Value.get?_set_ne m ne v).trans lists

theorem Lists.add (lists : Lists xs m) (ys : List Value) :
    Lists (xs ++ ys) (m.set "syntax_errors" (.list ((m.getOrNull "syntax_errors").itemsOrEmpty ++ ys))) := by
  refine (Value.get?_set_self (Value.isObject_of_get? lists) _ _).trans ?_
  rw [Value.getOrNull, lists]
  rfl

theorem lasts_lists (xs : List Value) : Lasts (Lists xs) :=
  lasts_of_set (by decide) fun _ _ v ne lists => lists.set ne v

theorem lists_drawn : Gives (Lists []) (classMetrics reports files) ∧ Gives (Lists []) (structMetrics reports files) :=
  ⟨.bind fun _ _ => .bind fun _ _ => (lasts_lists _).told (by rfl),
    .bind fun _ _ => .bind fun _ _ => .bind fun _ _ => (lasts_lists _).told (by rfl)⟩

/-! ## Figures of several languages -/

theorem lists_combine {sources : List α} {languages : Fields} {listed : α → List Value}
    (each : Forall₂ (fun s l => Lists (listed s) l.2) sources languages) :
    Gives (Lists (sources.flatMap listed)) (combine languages files) := by
  refine .bind fun _ _ => .bind fun j joint => .bind fun _ _ => .bind fun _ _ => .bind fun _ _ => ?_
  refine (lasts_lists _).told ?_
  iterate 11 obtain ⟨_, -, joint⟩ := ok_of_bind joint
  obtain ⟨errors, read, joint⟩ := ok_of_bind joint
  obtain ⟨_, -, joint⟩ := ok_of_bind joint
  cases joint
  refine congrArg (some ∘ Value.list) (?_ : errors.flatten = _)
  clear * - each read
  induction each generalizing errors with
  | nil =>
    cases read
    rfl
  | @cons s l _ _ lists _ ih =>
    rw [map_cons, mapM_cons] at read
    obtain ⟨first, own, read⟩ := ok_of_bind read
    obtain ⟨rest, others, read⟩ := ok_of_bind read
    cases read
    rw [lists] at own
    cases h : listed s <;> simp_all [Value.orElse, Value.truthy, Value.elements]

theorem lists_aggregate : Gives (Lists []) (aggregate reports files) := by
  refine gives_aggregate (lasts_lists _) (fun _ _ _ => lists_drawn) fun languages each => ?_
  rw [← flatMap_eq_nil_iff (f := fun _ => []).2 fun _ _ => rfl]
  exact lists_combine (forall₂_same.2 each : Forall₂ (fun _ l => Lists [] l.2) languages languages)

/-! ## A project -/

/-- The sources that the figures of their language list: those that can be read and not be parsed, in Python alone. -/
def listed (ps : Parsers) (d : Disk) (s : String × List Path) : List Value :=
  if s.1 = "Python" then (s.2.filter (ps.parsePython d · matches .rejected)).map (.text ·.text) else []

theorem Python.rejected_findings (root : Path) (parse : Path → Parsed Ast) (files : List Path) :
    (findings root (files.map fun p => (p, parse p))).rejected = files.filter (parse · matches .rejected) := by
  show filterMap _ (map _ _) = _
  rw [filterMap_map]
  induction files with
  | nil => rfl
  | cons p _ ih =>
    rw [filterMap_cons, filter_cons, ih, Function.comp_apply]
    cases parse p <;> rfl

theorem lists_languageFigures (language : String) (files : List Path) :
    Gives (Lists (listed ps d (language, files)) ·.1) (languageFigures ps d root language files) := by
  unfold languageFigures
  split <;> refine .bind fun m made => gives_ok ?_
  case h_1 =>
    rw [listed, ← Python.rejected_findings root]
    obtain ⟨m, plain, made⟩ := ok_of_bind made
    exact (lasts_lists _).told ((((lists_aggregate plain).set (by decide) _).set (by decide) _).add _) made
  case h_3 =>
    obtain ⟨_, -, made⟩ := ok_of_bind made
    obtain ⟨m, plain, made⟩ := ok_of_bind made
    exact (lasts_lists _).told ((((lists_aggregate plain).set (by decide) _).set (by decide) _).set (by decide) _) made
  case h_6 other _ _ _ _ =>
    rw [listed, if_neg other]
    exact lists_aggregate made
  all_goals exact lists_aggregate made

theorem javaScriptRoot_eq : Gives (· = d.resolved root) (javaScriptRoot d root) := by
  refine .bind fun there _ => ?_
  cases there with
  | false => exact .bind nofun
  | true =>
    refine .bind fun isDir _ => ?_
    cases isDir with
    | false => exact .bind nofun
    | true => exact gives_ok rfl

/-- A source that its parser rejects is listed in the figures of its language and of the whole project in Python alone. -/
theorem rejected_in_python_alone (ps : Parsers) (d : Disk) (root : Path) :
    (∀ s l, languageMetrics ps d root s = .ok l → Lists (listed ps d s) l.2.1) ∧
      ∀ r, survey ps d root = .ok r → Lists ((usedSources d (d.resolved root)).flatMap (listed ps d)) r.1 := by
  have own (root : Path) (s : String × List Path) :
      Gives (Lists (listed ps d s) ·.2.1) (languageMetrics ps d root s) :=
    .bind fun _ figures => gives_ok ((lists_languageFigures _ _ figures).set (by decide) _)
  refine ⟨fun s _ made => own root s made, ?_⟩
  show Gives (Lists ((usedSources d (d.resolved root)).flatMap (listed ps d)) ·.1) (survey ps d root)
  refine .bind fun _ resolved => .bind fun found each => ?_
  cases javaScriptRoot_eq resolved
  replace each := forall₂_of_mapM _ each
  generalize usedSources d (d.resolved root) = used at each ⊢
  match found, each with
  | [], .nil => exact .bind fun _ none => gives_ok (lists_aggregate none)
  | [l], .cons one .nil => exact gives_ok (by simpa using own _ _ one)
  | _ :: _ :: _, each =>
    have each := each.imp fun s _ one => own _ s one
    exact .bind fun _ whole => gives_ok (lists_combine (forall₂_map_right_iff.2 each) whole)

/-- A project with a source in Python and one in Java. -/
def twoSources : Disk :=
  ⟨.dir [("a.py", .file ⟨.text "", default, 0⟩), ("A.java", .file ⟨.text "", default, 0⟩)], ⟨"/", []⟩, "", 0⟩

theorem rejected_of_twoSources :
    ∃ r, survey .refusing twoSources ⟨"/", []⟩ = .ok r ∧ Lists [.text "/a.py"] r.1 := by
  obtain ⟨r, _, made⟩ := ok_of_isOk (x := (survey .refusing twoSources ⟨"/", []⟩, ())) (by decide +kernel)
  have used : usedSources twoSources (twoSources.resolved ⟨"/", []⟩) =
    [("Python", [⟨"/", ["a.py"]⟩]), ("Java", [⟨"/", ["A.java"]⟩])] := by decide +kernel
  have lists := (rejected_in_python_alone .refusing twoSources ⟨"/", []⟩).2 r (Prod.mk.inj made).1
  rw [used] at lists
  exact ⟨r, (Prod.mk.inj made).1, lists⟩

/-- The source in Java is not listed, as that in Python is. -/
theorem java_source_forgotten :
    usedSources twoSources ⟨"/", []⟩ = [("Python", [⟨"/", ["a.py"]⟩]), ("Java", [⟨"/", ["A.java"]⟩])] ∧
      (survey .refusing twoSources ⟨"/", []⟩).toOption.map (fun r => (r.1.getOrNull "syntax_errors").itemsOrEmpty.map
        (·.text?)) = some [some "/a.py"] := by
  decide +kernel

end Folio.Code
