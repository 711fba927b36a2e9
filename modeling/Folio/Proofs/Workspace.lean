/-
# Proofs.Workspace -- what an action leaves alone

`Steady aims w w'` says that on a disk without links the places in `aims` were reached at most, and the context was left
alone.  An action is `Within` some aims when all that it does is steady, whether it succeeds or fails.  One lemma for
each primitive action and one for their sequence show this of longer ones step by step.
-/
import Folio.Proofs.Action
import Folio.Proofs.Disk.Ready

namespace Folio

open Action

theorem outcome_exists {w : Workspace} {base : Path} {name : String} (room : w.disk.Room base name) :
    (ask (·.exists? (base.entry name))).outcome w = (.ok (w.disk.root.at? (base.entry name).parts).isSome, w) :=
  congrArg (·, w) room.exists?

/-- Only places in `aims` were reached, and the application works with the same things as before. -/
structure Steady (aims : List String → Prop) (w w' : Workspace) : Prop where
  disk : w.disk.Reaches aims w'.disk
  context : w'.context = w.context
  temp : w'.temp = w.temp
  now : w'.now = w.now

namespace Steady

variable {aims : List String → Prop} {w w' w'' : Workspace} {p : Path}

theorem refl (linkless : w.disk.Linkless) : Steady aims w w := ⟨.refl linkless, rfl, rfl, rfl⟩

theorem trans (first : Steady aims w w') (second : Steady aims w' w'') : Steady aims w w'' :=
  ⟨first.disk.trans second.disk, second.context.trans first.context, second.temp.trans first.temp,
    second.now.trans first.now⟩

theorem mono {more : List String → Prop} (steady : Steady aims w w') (all : ∀ aim, aims aim → more aim) :
    Steady more w w' :=
  ⟨steady.disk.mono all, steady.context, steady.temp, steady.now⟩

theorem linkless (steady : Steady aims w w') : w'.disk.Linkless := steady.disk.linkless

end Steady

/-- An action that is steady in a context, whether it succeeds or fails. -/
def Action.Within {α : Type} (c : Context) (aims : List String → Prop) (a : Action α) : Prop :=
  ∀ w, w.disk.Linkless → w.context = c → Steady aims w (a.outcome w).2

namespace Action.Within

variable {α β : Type} {c : Context} {aims : List String → Prop} {a : Action α} {next : α → Action β} {p : Path}

theorem steady {w w' : Workspace} {r : Except Fault α} (inside : a.Within c aims) (linkless : w.disk.Linkless)
    (context : w.context = c) (run : a.outcome w = (r, w')) : Steady aims w w' := by
  have reached := inside w linkless context
  rwa [run] at reached

theorem of_same (same : ∀ w, (a.outcome w).2.disk = w.disk ∧ (a.outcome w).2.context = w.context ∧
    (a.outcome w).2.temp = w.temp ∧ (a.outcome w).2.now = w.now) : a.Within c aims := by
  intro w linkless _
  obtain ⟨disk, context, temp, now⟩ := same w
  exact ⟨disk.symm ▸ .refl linkless, context, temp, now⟩

theorem pure (x : α) : (Pure.pure x : Action α).Within c aims := of_same fun _ => ⟨rfl, rfl, rfl, rfl⟩

theorem throw (f : Fault) : (MonadExcept.throw f : Action α).Within c aims :=
  of_same fun _ => ⟨rfl, rfl, rfl, rfl⟩

theorem lift (r : Except Fault α) : (liftM r : Action α).Within c aims :=
  of_same fun _ => ⟨rfl, rfl, rfl, rfl⟩

theorem ask (question : Disk → Except Fault α) : (ask question).Within c aims :=
  of_same fun _ => ⟨rfl, rfl, rfl, rfl⟩

theorem disk : disk.Within c aims := of_same fun _ => ⟨rfl, rfl, rfl, rfl⟩

theorem now : now.Within c aims := of_same fun _ => ⟨rfl, rfl, rfl, rfl⟩

theorem print (s : String) : (print s).Within c aims := of_same fun _ => ⟨rfl, rfl, rfl, rfl⟩

theorem freshId : freshId.Within c aims := of_same fun _ => ⟨rfl, rfl, rfl, rfl⟩

theorem bind_ok (first : a.Within c aims)
    (rest : ∀ w x w', w.disk.Linkless → w.context = c → a.outcome w = (.ok x, w') → (next x).Within c aims) :
    (a >>= next).Within c aims := by
  intro w linkless context
  have reached := first w linkless context
  refine state_bind (P := Steady aims w) (fun _ _ => reached) fun x succeeded => ?_
  have run : a.outcome w = (.ok x, (a.outcome w).2) := Prod.ext succeeded rfl
  exact reached.trans (rest w x _ linkless context run _ reached.linkless (reached.context.trans context))

theorem bind (first : a.Within c aims) (rest : ∀ x, (next x).Within c aims) : (a >>= next).Within c aims :=
  bind_ok first fun _ x _ _ _ _ => rest x

theorem get {next : Workspace → Action β} (rest : ∀ w, w.context = c → (next w).Within c aims) :
    ((MonadState.get : Action Workspace) >>= next).Within c aims :=
  bind_ok (of_same fun _ => ⟨rfl, rfl, rfl, rfl⟩) fun w x w' _ context run => by
    obtain ⟨same, -⟩ := Prod.mk.inj run
    exact rest x (Except.ok.inj same ▸ context)

theorem loop {f : α → Action Unit} (each : ∀ x, (f x).Within c aims) (xs : List α) : (forIn xs PUnit.unit fun x _ => do
      f x
      Pure.pure (ForInStep.yield PUnit.unit) : Action PUnit).Within c aims := by
  induction xs with
  | nil => exact pure _
  | cons x xs ih =>
    rw [List.forIn_cons]
    refine bind (bind (each x) fun _ => pure _) fun step => ?_
    cases step with
    | done _ => exact pure _
    | yield _ => exact ih

theorem attempt (inside : a.Within c aims) : a.attempt.Within c aims := fun w linkless context => by
  exact inside w linkless context

theorem discard (inside : a.Within c aims) : (Functor.discard a).Within c aims := fun w linkless context => by
  rw [outcome_discard]
  exact inside w linkless context

theorem change {step : Disk → Except Fault Disk}
    (reaches : ∀ d d', d.Linkless → step d = .ok d' → d.Reaches aims d') : (change step).Within c aims := by
  intro w linkless _
  rw [outcome_change]
  cases stepped : step w.disk with
  | error f => exact .refl linkless
  | ok d => exact ⟨reaches _ d linkless stepped, rfl, rfl, rfl⟩

variable (straight : p.Straight)

include straight

theorem write (named : p.parts ≠ []) (aim : aims p.parts) (content : Content) : (write p content).Within c aims :=
  bind now fun _ => change fun _ _ linkless written =>
    (Disk.reaches_write linkless straight named written).mono fun _ same => same ▸ aim

theorem makeDirs (aim : aims p.parts) : (makeDirs p).Within c aims :=
  change fun _ _ linkless made => (Disk.reaches_makeDirs linkless straight made).mono fun _ same => same ▸ aim

theorem store (named : p.parts ≠ []) (aim : aims p.parts) (above : aims p.parent.parts)
    (layout : Json.Layout) (v : Value) : (store p layout v).Within c aims := by
  refine bind (makeDirs straight.parent above) fun _ => ?_
  cases Json.isPlain v with
  | false => exact throw _
  | true => exact write straight named aim _

end Action.Within

end Folio
