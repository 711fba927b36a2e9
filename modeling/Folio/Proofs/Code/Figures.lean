/-
# Proofs.Code.Figures -- what all figures have

Figures are drawn for classes or for structs; every language has one of the two, retold.  What holds of both and of
figures that are joined holds of all, if neither the telling nor the name of the language matters to it
(`gives_aggregate`).
-/
import Folio.Code.Project
import Folio.Proofs.Code

namespace Folio.Code

open Action List

variable {α β : Type} {P : Value → Prop} {reports : List Value} {files m : Value}

theorem gives_mapM {f : α → Except Fault β} {Q : β → Prop} {as : List α} (each : ∀ a ∈ as, Gives Q (f a)) :
    Gives (∀ b ∈ ·, Q b) (as.mapM f) := by
  induction as with
  | nil => exact gives_ok (by simp)
  | cons a as ih =>
    rw [mapM_cons]
    refine .bind fun b first => .bind fun bs rest => gives_ok (forall_mem_cons.2 ⟨each a mem_cons_self first, ?_⟩)
    exact ih (fun a member => each a (mem_cons_of_mem _ member)) rest

theorem mapM_eq_ok {f : α → Except Fault β} {g : α → β} {as : List α} (each : ∀ a ∈ as, f a = .ok (g a)) :
    as.mapM f = .ok (as.map g) := by
  induction as with
  | nil => rfl
  | cons a as ih =>
    rw [mapM_cons, each a mem_cons_self, ih fun a member => each a (mem_cons_of_mem _ member)]
    rfl

/-- It matters neither how figures are told nor of which language they are. -/
def Lasts (P : Value → Prop) : Prop :=
  ∀ m key v, key ∈ ["narrative", "language", "cpp_spec"] → P m → P (m.set key v)

theorem lasts_of_set {key : String} (other : key ∉ ["narrative", "language", "cpp_spec"])
    (set : ∀ m k v, key ≠ k → P m → P (m.set k v)) : Lasts P :=
  fun m k v added => set m k v (ne_of_mem_of_not_mem added other).symm

theorem Lasts.told (lasts : Lasts P) (holds : P m) {tell : Value → Except Fault Narrative} :
    Gives P (withNarrative tell m) :=
  .bind fun _ _ => gives_ok (lasts _ _ _ (by simp) holds)

theorem gives_metricsOf (lasts : Lasts P) (language : String)
    (drawn : Gives P (classMetrics reports files) ∧ Gives P (structMetrics reports files)) :
    Gives P (metricsOf language reports files) := by
  unfold metricsOf
  split
  · exact drawn.2
  · refine .bind fun m made => .bind fun _ _ => .bind fun _ _ => lasts.told ?_
    exact lasts _ _ _ (by simp) (lasts _ _ _ (by simp) (drawn.2 made))
  · exact .bind fun m made => lasts.told (lasts _ _ _ (by simp) (drawn.1 made))
  · exact drawn.1

theorem groups_subset : Gives (∀ g ∈ ·, g.2 ⊆ reports) (Language.groups reports) := by
  refine .bind fun tagged each => gives_ok ?_
  have own : ∀ t ∈ tagged, t.2 ∈ reports :=
    gives_mapM (Q := (·.2 ∈ reports)) (fun r member => .bind fun _ _ => gives_ok member) each
  simp only [mem_map]
  rintro g ⟨l, -, rfl⟩ r inside
  grind

theorem gives_aggregate (lasts : Lasts P)
    (drawn : ∀ rs ⊆ reports, ∀ files, Gives P (classMetrics rs files) ∧ Gives P (structMetrics rs files))
    (joined : ∀ languages : Fields, (∀ l ∈ languages, P l.2) → Gives P (combine languages files)) :
    Gives P (aggregate reports files) := by
  unfold aggregate
  split
  · exact (drawn _ (Subset.refl _) _).1
  · refine .bind fun groups grouped => ?_
    split
    · refine .bind fun m made => gives_ok ?_
      have holds := gives_metricsOf lasts _ (drawn _ (groups_subset grouped _ mem_cons_self) _) made
      unfold labelled
      split
      · exact holds
      · exact lasts _ _ _ (by simp) holds
    · refine .bind fun groups grouped => .bind fun languages each => joined _ ?_
      refine gives_mapM (Q := (P ·.2)) (fun g member => .bind fun m made => gives_ok ?_) each
      exact lasts _ _ _ (by simp) (gives_metricsOf lasts _ (drawn _ (groups_subset grouped g member) _) made)

end Folio.Code
