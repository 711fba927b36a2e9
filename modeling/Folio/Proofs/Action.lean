/-
# Proofs.Action -- what an action leaves behind

An action is read through its `outcome`: the result or the fault, beside the workspace that it leaves.  Every way of
building actions has one equation here; a failing step keeps the workspace of the steps before it (`outcome_bind`).
-/
import Folio.Workspace

namespace Folio.Action

open List

variable {layout : Json.Layout} {p : Path} {v : Value} {w w' : Workspace} {γ : Type} {α β : Type}
  {a : Action α} {next : α → Action β} {xs : List α}

theorem ok_of_bind {r : Except Fault α} {next : α → Except Fault β} {y : β}
    (run : r >>= next = .ok y) : ∃ x, r = .ok x ∧ next x = .ok y := by
  cases r with
  | error f => cases run
  | ok x => exact ⟨x, rfl, run⟩

/-- What comes out is as stated, unless there is a fault. -/
def Gives (Q : α → Prop) (r : Except Fault α) : Prop := ∀ ⦃x⦄, r = .ok x → Q x

theorem gives_ok {Q : α → Prop} {x : α} (holds : Q x) : Gives Q (.ok x) := fun _ same => Except.ok.inj same ▸ holds

theorem gives_error {Q : α → Prop} (f : Fault) : Gives Q (.error f) := nofun

theorem Gives.bind {Q : β → Prop} {r : Except Fault α} {next : α → Except Fault β}
    (each : ∀ x, r = .ok x → Gives Q (next x)) : Gives Q (r >>= next) := by
  intro y run
  obtain ⟨x, first, run⟩ := ok_of_bind run
  exact each x first run

theorem outcome_bind (a : Action α) (next : α → Action β) (w : Workspace) : (a >>= next).outcome w =
      match a.outcome w with
      | (.ok x, w') => (next x).outcome w'
      | (.error f, w') => (.error f, w') := by
  change StateT.run (ExceptT.run (a >>= next)) w = _
  rw [ExceptT.run_bind]
  simp only [outcome, StateT.run_bind]
  cases h : StateT.run (ExceptT.run a) w with
  | mk r w' => cases r <;> rfl

theorem bind_of_ok {x : α} (first : a.outcome w = (.ok x, w')) : (a >>= next).outcome w = (next x).outcome w' := by
  rw [outcome_bind, first]

theorem steps_of_bind {y : β} (run : (a >>= next).outcome w = (.ok y, w')) :
    ∃ x mid, a.outcome w = (.ok x, mid) ∧ (next x).outcome mid = (.ok y, w') := by
  rw [outcome_bind] at run
  rcases first : a.outcome w with ⟨r, mid⟩
  rw [first] at run
  cases r with
  | error f => cases run
  | ok x => exact ⟨x, mid, rfl, run⟩

theorem step_of_lift {r : Except Fault α} {y : β} (run : ((liftM r : Action α) >>= next).outcome w = (.ok y, w')) :
    ∃ x, r = .ok x ∧ (next x).outcome w = (.ok y, w') := by
  cases r with
  | error f => cases run
  | ok x => exact ⟨x, rfl, run⟩

/-- What holds after two steps: the first step may fail, or the second goes on from it. -/
theorem state_bind {P : Workspace → Prop} (stop : ∀ f, (a.outcome w).1 = .error f → P (a.outcome w).2)
    (go : ∀ x, (a.outcome w).1 = .ok x → P ((next x).outcome (a.outcome w).2).2) : P ((a >>= next).outcome w).2 := by
  rw [outcome_bind]
  rcases first : a.outcome w with ⟨r, w'⟩
  rw [first] at stop go
  cases r with
  | error f => exact stop f rfl
  | ok x => exact go x rfl

/-- A loop that succeeds takes one successful step for each element. -/
theorem loop_keeps {P : γ → Workspace → Prop} {g : γ → α → γ} {f : α → Action Unit}
    (step : ∀ x ∈ xs, ∀ c w w', P c w → (f x).outcome w = (.ok (), w') → P (g c x) w') {c : γ} (start : P c w)
    (run : (forIn xs PUnit.unit fun x _ => do
      f x
      pure (ForInStep.yield PUnit.unit) : Action PUnit).outcome w = (.ok PUnit.unit, w')) : P (xs.foldl g c) w' := by
  induction xs generalizing c w with
  | nil =>
    obtain ⟨-, rfl⟩ := Prod.mk.inj run
    exact start
  | cons x xs ih =>
    rw [forIn_cons] at run
    obtain ⟨next, mid, first, rest⟩ := steps_of_bind run
    obtain ⟨_, mid', done, more⟩ := steps_of_bind first
    obtain ⟨same, rfl⟩ := Prod.mk.inj more
    cases same
    exact ih (fun y member => step y (mem_cons_of_mem _ member)) (step x mem_cons_self c w _ start done) rest

@[simp] theorem outcome_pure (x : α) (w : Workspace) : (pure x : Action α).outcome w = (.ok x, w) := rfl

@[simp] theorem outcome_get (w : Workspace) : (get : Action Workspace).outcome w = (.ok w, w) := rfl

@[simp] theorem outcome_modify (step : Workspace → Workspace) (w : Workspace) :
    (modify step : Action Unit).outcome w = (.ok (), step w) := rfl

@[simp] theorem outcome_lift (r : Except Fault α) (w : Workspace) : (liftM r : Action α).outcome w = (r, w) := rfl

@[simp] theorem outcome_map (g : α → β) (a : Action α) (w : Workspace) :
    (g <$> a).outcome w = ((a.outcome w).1.map g, (a.outcome w).2) := by
  rw [map_eq_pure_bind, outcome_bind]
  rcases a.outcome w with ⟨r, w'⟩
  cases r <;> rfl

@[simp] theorem outcome_disk (w : Workspace) : disk.outcome w = (.ok w.disk, w) := rfl

@[simp] theorem outcome_now (w : Workspace) : now.outcome w = (.ok w.now, w) := rfl

@[simp] theorem outcome_ask (question : Disk → Except Fault α) (w : Workspace) :
    (ask question).outcome w = (question w.disk, w) := rfl

variable (a : Action α)

@[simp] theorem outcome_attempt (w : Workspace) : a.attempt.outcome w = (.ok (a.outcome w).1, (a.outcome w).2) := rfl

theorem outcome_tryCatch (handle : Fault → Action α) (w : Workspace) : (tryCatch a handle).outcome w =
      match a.outcome w with
      | (.ok x, w') => (.ok x, w')
      | (.error f, w') => (handle f).outcome w' := by
  simp only [tryCatch, tryCatchThe, MonadExceptOf.tryCatch, ExceptT.tryCatch, outcome]
  rw [ExceptT.run_mk, StateT.run_bind]
  cases h : StateT.run (ExceptT.run a) w with
  | mk r w' =>
    rw [show StateT.run a w = (r, w') from h]
    cases r <;> rfl

@[simp] theorem outcome_discard (w : Workspace) :
    (discard a).outcome w = ((a.outcome w).1.map fun _ => (), (a.outcome w).2) :=
  outcome_map _ a w

theorem outcome_change (step : Disk → Except Fault Disk) (w : Workspace) : (change step).outcome w =
      match step w.disk with
      | .ok d => (.ok (), { w with disk := d })
      | .error f => (.error f, w) := by
  rw [change, bind_of_ok (outcome_disk w)]
  cases step w.disk <;> rfl

theorem changed_of_ok {step : Disk → Except Fault Disk}
    (run : (change step).outcome w = (.ok (), w')) : ∃ d, step w.disk = .ok d ∧ w' = { w with disk := d } := by
  rw [outcome_change] at run
  cases stepped : step w.disk with
  | error f => simp [stepped] at run
  | ok d =>
    simp only [stepped] at run
    cases run
    exact ⟨d, rfl, rfl⟩

theorem outcome_write (p : Path) (c : Content) (w : Workspace) : (write p c).outcome w =
      match w.disk.write p c w.now with
      | .ok d => (.ok (), { w with disk := d })
      | .error f => (.error f, w) := by
  rw [write, bind_of_ok (outcome_now w), outcome_change]

theorem written_of_ok {c : Content} (run : (write p c).outcome w = (.ok (), w')) :
    ∃ d, w.disk.write p c w.now = .ok d ∧ w' = { w with disk := d } := by
  rw [write, bind_of_ok (outcome_now w)] at run
  exact changed_of_ok run

theorem outcome_makeDirs (p : Path) (w : Workspace) : (makeDirs p).outcome w = match w.disk.makeDirs p with
      | .ok d => (.ok (), { w with disk := d })
      | .error f => (.error f, w) :=
  outcome_change _ w

theorem outcome_store (p : Path) (layout : Json.Layout) (v : Value) (w : Workspace) : (store p layout v).outcome w =
      match w.disk.makeDirs p.parent with
      | .error f => (.error f, w)
      | .ok d =>
        if Json.isPlain v then (write p (.document layout v)).outcome { w with disk := d }
        else (.error unwritable, { w with disk := d }) := by
  rw [store, outcome_bind, outcome_makeDirs]
  cases w.disk.makeDirs p.parent with
  | error f => rfl
  | ok d =>
    cases plain : Json.isPlain v <;> rfl

theorem stored_of_ok (run : (store p layout v).outcome w = (.ok (), w')) :
    ∃ d d', w.disk.makeDirs p.parent = .ok d ∧ d.write p (.document layout v) w.now = .ok d' ∧
      w' = { w with disk := d' } := by
  rw [outcome_store] at run
  split at run
  · cases run
  · rename_i d made
    split at run
    · obtain ⟨d', written, rfl⟩ := written_of_ok run
      exact ⟨d, d', made, written, rfl⟩
    · cases run

variable {x : Except Fault α × γ}

theorem ok_of_isOk (fine : x.1.isOk) : ∃ v s, x = (.ok v, s) := by
  obtain ⟨r, s⟩ := x
  cases r with
  | error f => cases fine
  | ok v => exact ⟨v, s, rfl⟩

theorem error_of_isOk (broken : x.1.isOk = false) : ∃ f s, x = (.error f, s) := by
  obtain ⟨r, s⟩ := x
  cases r with
  | error f => exact ⟨f, s, rfl⟩
  | ok v => cases broken

/-! ## Choosing from a list -/

variable {test : α → Except Fault Bool}

theorem filterM_of_ok {keep : α → Bool}
    (decides : ∀ x ∈ xs, test x = .ok (keep x)) : xs.filterM test = .ok (xs.filter keep) := by
  have chosen : ∀ acc : List α, xs.filterAuxM test acc = .ok ((xs.filter keep).reverse ++ acc) := by
    induction xs with
    | nil => exact fun acc => rfl
    | cons x xs ih =>
      intro acc
      rw [filterAuxM, decides x mem_cons_self]
      have rest := ih (fun y member => decides y (mem_cons_of_mem _ member)) (cond (keep x) (x :: acc) acc)
      refine rest.trans ?_
      cases kept : keep x <;> simp [kept]
  rw [filterM, chosen []]
  simp [bind, Except.bind, pure, Except.pure]

theorem ok_of_filterM {ys : List α} (run : xs.filterM test = .ok ys) : ∀ x ∈ xs, ∃ kept, test x = .ok kept := by
  have decided : ∀ acc zs : List α, xs.filterAuxM test acc = .ok zs → ∀ x ∈ xs, ∃ kept, test x = .ok kept := by
    clear run
    induction xs with
    | nil => exact fun _ _ _ x member => absurd member not_mem_nil
    | cons x xs ih =>
      intro acc zs chosen
      obtain ⟨kept, first, rest⟩ := ok_of_bind chosen
      exact forall_mem_cons.2 ⟨⟨kept, first⟩, ih _ zs rest⟩
  obtain ⟨zs, chosen, -⟩ := ok_of_bind run
  exact decided [] zs chosen

end Folio.Action
