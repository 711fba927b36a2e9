/-
# Proofs.Settings -- what saving settings and consent leaves

The user's file is emptied before it is known whether the new settings can be written.  Settings with a strict form are
in force afterwards (`load_saved`).  Those without one leave the empty file, which counts as none, so the shipped
defaults are in force and the settings that were stored are gone (`load_emptied`).

The flags of the running program are set before the consent is stored, and they stay when storing fails.  A call that
returns has stored the consent as one field of the settings (`Stored`), except where the settings are nothing: then
nothing is stored, and the call returns all the same.  Storing fails when the settings cannot be read or take no field,
when the directory or the file cannot be opened, and when the settings have no strict form (`Storable`).
-/
import Folio.Api.Users
import Folio.Proofs.Action
import Folio.Proofs.Disk.Fresh
import Folio.Proofs.Json

namespace Folio

open Action Disk Json

namespace Disk

variable {d d' : Disk} {p q : Path} {f : File} {c : Content} {t : Moment}

section

variable (rooted : (d.absolute p).isAbsolute) (found : d.file p = .ok f) (written : d.write p c t = .ok d')

include rooted found written

theorem locate_overwritten (q : Path) : d'.locate q = d.locate q := by
  obtain ⟨place, -, frame⟩ := frame_write written
  rw [locate, locate, frame.absolute, resolve_alike (alike_write rooted found written)]

theorem file_beside (apart : d.locate q ≠ d.locate p) : d'.file q = d.file q := by
  obtain ⟨real, located, -⟩ := file_eq_ok.1 found
  obtain ⟨place, placed, frame⟩ := frame_write written
  obtain rfl : real = place := by simpa [placeFor_of_locate rooted located] using placed
  have same := locate_overwritten rooted found written q
  unfold file node
  rw [same]
  cases there : d.locate q with
  | error trouble => rfl
  | ok way =>
    have off : way ≠ real := by
      rintro rfl
      exact apart (there.trans located.symm)
    simp only [Bind.bind, Except.bind]
    rcases (alike_write rooted found written).kinds way with
      ⟨old, new⟩ | ⟨⟨_, old⟩, _, new⟩ | ⟨f, _, old, -⟩ | ⟨_, old, new⟩
    · rw [old, new]
    · rw [old, new]
    · rw [old, (frame.file off f).2 old]
    · rw [old, new]

theorem strictDocument_beside (apart : d.locate q ≠ d.locate p) : d'.strictDocument q = d.strictDocument q := by
  unfold strictDocument content
  rw [file_beside rooted found written apart]

end

end Disk

namespace Settings

variable {w : Workspace} {d : Disk} {home : Path} {f : File} {v : Value}

/-! ## What is in force -/

theorem load_saved (found : d.file (place home) = .ok f) (held : f.content = .document .exact v) :
    load d home = .ok (finite v) := by
  simp only [load, strictDocument, content, found, Bind.bind, Except.bind, held]
  rfl

theorem load_emptied (found : d.file (place home) = .ok f) (held : f.content = .text "") :
    load d home = shipped d home := by
  simp only [load, strictDocument, content, found, Bind.bind, Except.bind, held]
  rfl

/-! ## What a save does -/

def saveFault (reason : String) : Fault := .met .system ("Failed to save configuration: " ++ reason)

theorem outcome_save (v : Value) (w : Workspace) : (save v).outcome w =
      match w.disk.write (place w.context.home) (.text "") w.now with
      | .error f => (.error (.wrap .system ("Failed to save configuration: " ++ f.text) f), w)
      | .ok d =>
        match strictRefusal? v with
        | some reason => (.error (saveFault reason), { w with disk := d })
        | none =>
          match d.write (place w.context.home) (.document .exact v) w.now with
          | .error f => (.error (.wrap .system ("Failed to save configuration: " ++ f.text) f), { w with disk := d })
          | .ok d' => (.ok (), { w with disk := d' }) := by
  rw [save, bind_of_ok (outcome_get w)]
  rw [bind_of_ok (outcome_attempt _ w), outcome_bind, writeText, outcome_write]
  cases w.disk.write (place w.context.home) (.text "") w.now with
  | error f => rfl
  | ok d =>
    dsimp only
    cases strictRefusal? v with
    | some reason => rfl
    | none =>
      rw [outcome_write]
      cases d.write (place w.context.home) (.document .exact v) w.now with
      | error f | ok d' => rfl

theorem save_refused {reason : String} (opened : w.disk.write (place w.context.home) (.text "") w.now = .ok d)
    (refused : strictRefusal? v = some reason) :
    (save v).outcome w = (.error (saveFault reason), { w with disk := d }) := by
  rw [outcome_save, opened]
  rw [refused]

section

variable (rooted : (w.disk.absolute (place w.context.home)).isAbsolute)

include rooted

theorem save_written
    (opened : w.disk.write (place w.context.home) (.text "") w.now = .ok d) (fits : strictRefusal? v = none) :
    ∃ d', (save v).outcome w = (.ok (), { w with disk := d' }) ∧ load d' w.context.home = .ok (finite v) := by
  obtain ⟨_, -, frame⟩ := frame_write opened
  obtain ⟨d', written, -, found⟩ := write_file (by rwa [frame.absolute]) (file_of_written rooted opened)
    (.document .exact v) w.now
  refine ⟨d', ?_, load_saved found rfl⟩
  rw [outcome_save, opened]
  dsimp only
  rw [fits, written]

/-- A save returns exactly when its file can be opened and the settings have a strict form; only the disk changes. -/
theorem save_cases (v : Value) :
    (∃ d d', w.disk.write (place w.context.home) (.text "") w.now = .ok d ∧ strictRefusal? v = none ∧
      (save v).outcome w = (.ok (), { w with disk := d' }) ∧ load d' w.context.home = .ok (finite v)) ∨
    (∀ d, w.disk.write (place w.context.home) (.text "") w.now = .ok d → strictRefusal? v ≠ none) ∧
      ∃ f d, (save v).outcome w = (.error f, { w with disk := d }) := by
  cases opened : w.disk.write (place w.context.home) (.text "") w.now with
  | error f =>
    refine .inr ⟨fun d there => (nomatch there), .wrap .system ("Failed to save configuration: " ++ f.text) f,
      w.disk, ?_⟩
    rw [outcome_save, opened]
  | ok d =>
    cases refused : strictRefusal? v with
    | some reason => exact .inr ⟨fun _ _ => by simp, saveFault reason, d, save_refused opened refused⟩
    | none =>
      obtain ⟨d', run, back⟩ := save_written rooted opened refused
      exact .inl ⟨d, d', rfl, rfl, run, back⟩

end

theorem outcome_replace (stored : w.disk.file (place w.context.home) = .ok f) (v : Value) :
    (replace v).outcome w = (save v).outcome w := by
  have made : w.disk.makeDirs (Context.usualFilesDir w.context.home) = .ok w.disk :=
    makeDirs_there fun _ _ whole _ => node_above (show "UserConfigs.json" ≠ ".." by decide) stored whole
  have prepared : prepare.outcome w = (.ok (), w) := by
    rw [prepare, bind_of_ok (outcome_get w), outcome_makeDirs, made]
  rw [replace, bind_of_ok prepared]

/-! ## Settings that are sent -/

open Api.Users (setSettings silently)

theorem outcome_setSettings (r : Api.Request) (w : Workspace) : (setSettings r).outcome w =
      match (replace (r.value "config")).outcome w with
      | (.ok _, w') => (.ok .null, w')
      | (.error f, w') => (.error (.met (.rejected 500) f.text), w') := by
  rw [setSettings, outcome_bind, silently, outcome_tryCatch]
  rcases (replace (r.value "config")).outcome w with ⟨o, w'⟩
  cases o with
  | error f | ok u => rfl

/-- A call that saves settings puts them in force, or it fails and what was in force still is. -/
def AllOrNothing {α : Type} (call : Action α) (v : Value) (w : Workspace) : Prop :=
  load (call.outcome w).2.disk w.context.home =
    if (call.outcome w).1.isOk then .ok v else load w.disk w.context.home

/-- What a call that saves settings comes to, where the user's file can be opened and `d` is the disk with that file
emptied. -/
structure Saved {α : Type} (call : Action α) (v : Value) (w : Workspace) (d : Disk) : Prop where
  returns : (call.outcome w).1.isOk = (strictRefusal? v).isNone
  inForce : load (call.outcome w).2.disk w.context.home =
    if (strictRefusal? v).isNone then .ok (finite v) else shipped d w.context.home

theorem Saved.allOrNothing_iff {α : Type} {call : Action α} (saved : Saved call v w d) : AllOrNothing call v w ↔
      if (strictRefusal? v).isNone then finite v = v
      else load w.disk w.context.home = shipped d w.context.home := by
  rw [AllOrNothing, saved.inForce, saved.returns]
  cases (strictRefusal? v).isNone with
  | true => exact ⟨fun same => Except.ok.inj same, fun same => congrArg Except.ok same⟩
  | false => exact eq_comm

theorem saved_replace (rooted : (w.disk.absolute (place w.context.home)).isAbsolute)
    (stored : w.disk.file (place w.context.home) = .ok f)
    (emptied : w.disk.write (place w.context.home) (.text "") w.now = .ok d) (v : Value) : Saved (replace v) v w d := by
  cases refused : strictRefusal? v with
  | some reason =>
    have run := (outcome_replace stored v).trans (save_refused emptied refused)
    have blank := file_of_written rooted emptied
    exact ⟨by rw [run, refused]; rfl, by rw [run, refused]; exact load_emptied blank rfl⟩
  | none =>
    obtain ⟨d', run, back⟩ := save_written rooted emptied refused
    rw [← outcome_replace stored v] at run
    exact ⟨by rw [run, refused]; rfl, by rw [run, refused]; exact back⟩

theorem saved_setSettings {r : Api.Request} (saved : Saved (replace (r.value "config")) (r.value "config") w d) :
    Saved (setSettings r) (r.value "config") w d := by
  obtain ⟨returns, inForce⟩ := saved
  have run := outcome_setSettings r w
  rcases done : (replace (r.value "config")).outcome w with ⟨o, w'⟩
  rw [done] at returns inForce run
  cases o with
  | error f | ok u => exact ⟨by rw [run]; exact returns, by rw [run]; exact inForce⟩

/-- Settings that are saved where some are stored.  Those with a strict form are in force afterwards, in that form.
Those without one are turned down, and afterwards the shipped defaults are in force: the file was emptied first.  So a
call that fails keeps what was in force only where that was the defaults already, and a call that returns puts in force
what was given only where that is in strict form. -/
theorem refused_settings_reset (w : Workspace) (r : Api.Request) (f : File)
    (rooted : (w.disk.absolute (place w.context.home)).isAbsolute)
    (stored : w.disk.file (place w.context.home) = .ok f) :
    ∃ d, w.disk.write (place w.context.home) (.text "") w.now = .ok d ∧
      (w.disk.locate (defaults w.context.home) ≠ w.disk.locate (place w.context.home) →
        shipped d w.context.home = shipped w.disk w.context.home) ∧
      Saved (setSettings r) (r.value "config") w d ∧
      (AllOrNothing (setSettings r) (r.value "config") w ↔
        if (strictRefusal? (r.value "config")).isNone then finite (r.value "config") = r.value "config"
        else load w.disk w.context.home = shipped d w.context.home) ∧
      ∀ v, Saved (replace v) v w d ∧ (AllOrNothing (replace v) v w ↔
        if (strictRefusal? v).isNone then finite v = v
        else load w.disk w.context.home = shipped d w.context.home) := by
  obtain ⟨d, emptied, -, -⟩ := Disk.write_file rooted stored (.text "") w.now
  have saved := saved_replace rooted stored emptied
  have sent := saved_setSettings (saved (r.value "config"))
  refine ⟨d, emptied, fun apart => ?_, sent, sent.allOrNothing_iff, fun v => ⟨saved v, (saved v).allOrNothing_iff⟩⟩
  rw [shipped, shipped, Disk.strictDocument_beside rooted stored emptied apart]

/-- A user's settings and shipped defaults. -/
def configured : Workspace :=
  { (default : Workspace) with
    disk := ⟨.dir [
        ("Templates", .dir [("default_user_configuration.json", .file ⟨.text "\x7b\"d\": 1\x7d", default, 0⟩)]),
        ("User_config_files", .dir [("UserConfigs.json", .file ⟨.text "\x7b\"a\": 1\x7d", default, 0⟩)])],
      ⟨"/", []⟩, "user", 0⟩
    context := .ofHome ⟨"/", []⟩ }

/-- A number that is too large for the strict layout. -/
def tooLarge : Api.Request := { args := .object [("config", .object [("n", .int 18446744073709551616)])] }

theorem configured_reset_by_large_number :
    (load configured.disk configured.context.home).toOption.map (render .line) = some "\x7b\"a\": 1\x7d" ∧
    ((setSettings tooLarge).outcome configured).1.isOk = false ∧
    (load ((setSettings tooLarge).outcome configured).2.disk configured.context.home).toOption.map
      (render .line) = some "\x7b\"d\": 1\x7d" ∧
    ¬ AllOrNothing (setSettings tooLarge) (tooLarge.value "config") configured := by
  have before : (load configured.disk configured.context.home).toOption.map (render .line) =
    some "\x7b\"a\": 1\x7d" := by decide +kernel
  have failed : ((setSettings tooLarge).outcome configured).1.isOk = false := by decide +kernel
  have after : (load ((setSettings tooLarge).outcome configured).2.disk configured.context.home).toOption.map
    (render .line) = some "\x7b\"d\": 1\x7d" := by decide +kernel
  refine ⟨before, failed, after, fun kept => ?_⟩
  rw [AllOrNothing, failed, if_neg Bool.false_ne_true] at kept
  rw [kept, before] at after
  exact absurd after (by decide)

/-- Both ends of the theorem at one user: a number that fits is in force afterwards, one that does not resets. -/
theorem configured_saves :
    ∃ d, configured.disk.write (place configured.context.home) (.text "") configured.now = .ok d ∧
      shipped d configured.context.home = shipped configured.disk configured.context.home ∧
      Saved (setSettings tooLarge) (tooLarge.value "config") configured d ∧
      Saved (replace (.object [("n", .int 7)])) (.object [("n", .int 7)]) configured d := by
  have apart : configured.disk.locate (defaults configured.context.home) ≠
      configured.disk.locate (place configured.context.home) := fun same =>
    absurd (congrArg Except.toOption same) (by decide)
  obtain ⟨d, emptied, kept, sent, -, every⟩ := refused_settings_reset configured tooLarge
    ⟨.text "\x7b\"a\": 1\x7d", default, 0⟩ (by decide) (by rfl)
  exact ⟨d, emptied, kept apart, sent, (every _).1⟩

end Settings

end Folio

namespace Folio.Api.Users

open Action Except Json Settings

open Settings (Consent load place withConsent consentField)

variable {d : Disk} {home : Path} {v : Value} {w w' : Workspace} {c : Consent} {r : Request}

/-! ## What the settings become -/

theorem finite_of_shipped (read : shipped d home = .ok v) : finite v = v := by
  unfold shipped at read
  split at read
  · rename_i u here
    cases read
    exact Disk.finite_of_strictDocument here
  · split at read <;> cases read

theorem finite_of_load (read : load d home = .ok v) : finite v = v := by
  unfold load at read
  split at read
  · rename_i u here
    cases read
    exact Disk.finite_of_strictDocument here
  · split at read
    · exact finite_of_shipped read
    · cases read

theorem withConsent_cases {u : Value} (taken : withConsent v c = .ok u) :
    v = .null ∧ u = .null ∨ ∃ fs, v = .object fs ∧ u = .object (Fields.set fs "consented" (consentField c)) := by
  unfold withConsent at taken
  split at taken
  · cases taken
    exact .inl ⟨rfl, rfl⟩
  · rename_i fs
    cases taken
    exact .inr ⟨fs, rfl, rfl⟩
  · cases taken

theorem finite_withConsent {u : Value} (strict : finite v = v) (taken : withConsent v c = .ok u) : finite u = u := by
  rcases withConsent_cases taken with ⟨-, rfl⟩ | ⟨fs, rfl, rfl⟩
  · exact finite_null
  · refine finite_set strict ?_ _
    rw [consentField]
    simp

/-! ## Storing a consent -/

/-- Settings with a consent can be stored: they can be read and take a field, their file can be opened, and they have a
strict form. -/
def Storable (c : Consent) (w : Workspace) : Prop :=
  ∃ v u d d', load w.disk w.context.home = .ok v ∧
    w.disk.makeDirs (Context.usualFilesDir w.context.home) = .ok d ∧ withConsent v c = .ok u ∧
    d.write (place w.context.home) (.text "") w.now = .ok d' ∧ strictRefusal? u = none

/-- The settings in force have the consent as a field and are otherwise what they were; nothing stays nothing. -/
def Stored (c : Consent) (d d' : Disk) (home : Path) : Prop :=
  load d home = .ok .null ∧ load d' home = .ok .null ∨
  ∃ fs, load d home = .ok (.object fs) ∧ load d' home = .ok (.object (Fields.set fs "consented" (consentField c)))

theorem persist_spec (c : Consent) (rooted : (w.disk.absolute (place w.context.home)).isAbsolute) :
    (Storable c w ∧ ∃ d, (persist c).outcome w = (.ok (), { w with disk := d }) ∧ Stored c w.disk d w.context.home) ∨
    ¬ Storable c w ∧ ∃ f d, (persist c).outcome w = (.error f, { w with disk := d }) := by
  have start : (persist c).outcome w = (ask (fun d => load d w.context.home) >>= fun settings => do
      prepare
      save (← withConsent settings c)).outcome w := by
    rw [persist, bind_of_ok (outcome_get w)]
  rw [start, outcome_bind, outcome_ask]
  cases read : load w.disk w.context.home with
  | error f =>
    refine .inr ⟨?_, f, w.disk, rfl⟩
    rintro ⟨v, u, d, d', there, -⟩
    rw [read] at there
    cases there
  | ok v =>
    dsimp only
    rw [outcome_bind, prepare, bind_of_ok (outcome_get w), outcome_makeDirs]
    cases made : w.disk.makeDirs (Context.usualFilesDir w.context.home) with
    | error f =>
      refine .inr ⟨?_, f, w.disk, rfl⟩
      rintro ⟨v, u, d, d', -, there, -⟩
      rw [made] at there
      cases there
    | ok d =>
      dsimp only
      rw [outcome_bind]
      cases taken : withConsent v c with
      | error f =>
        refine .inr ⟨?_, f, d, rfl⟩
        rintro ⟨v', u, d, d', read', -, there, -⟩
        obtain rfl : v = v' := ok.inj (read.symm.trans read')
        rw [taken] at there
        cases there
      | ok u =>
        have frame := Disk.frame_makeDirs made
        have strict := finite_withConsent (finite_of_load read) taken
        rcases save_cases (w := { w with disk := d }) (by rwa [frame.absolute]) u with
          ⟨d', d'', opened, fits, run, back⟩ | ⟨refused, f, d', run⟩
        · refine .inl ⟨⟨v, u, d, d', read, made, taken, opened, fits⟩, d'', run, ?_⟩
          rw [strict] at back
          rcases withConsent_cases taken with ⟨rfl, rfl⟩ | ⟨fs, rfl, rfl⟩
          · exact .inl ⟨read, back⟩
          · exact .inr ⟨fs, read, back⟩
        · refine .inr ⟨?_, f, d', run⟩
          rintro ⟨v', u', e, e', read', made', taken', opened, fits⟩
          obtain rfl : v = v' := ok.inj (read.symm.trans read')
          obtain rfl : d = e := ok.inj (made.symm.trans made')
          obtain rfl : u = u' := ok.inj (taken.symm.trans taken')
          exact refused e' opened fits

/-! ## Consent that is sent -/

def inForce (w : Workspace) : Consent := ⟨w.context.dataConsent, w.context.externalConsent⟩

def asked (r : Request) : Consent :=
  ⟨(r.body.getOrNull "data_consent").truthy, (r.body.getOrNull "external_consent").truthy⟩

theorem setConsent_unsound (unsound : (asked r).isSound = false) (w : Workspace) :
    (setConsent r).outcome w = (.error (.reject 400 "External consent requires data consent to be enabled."), w) := by
  have guard : !(asked r).isSound := by rw [unsound]; rfl
  exact congrArg (fun a => outcome a w) (if_pos guard)

/-- The workspace with the consent in force that a request asks for. -/
def granted (c : Consent) (w : Workspace) : Workspace :=
  { w with context := { w.context with externalConsent := c.external, dataConsent := c.data } }

theorem outcome_setConsent (sound : (asked r).isSound) (w : Workspace) : (setConsent r).outcome w =
      match (persist (asked r)).outcome (granted (asked r) w) with
      | (.ok _, w') =>
        (.ok (.object [("data_consent", .bool (asked r).data), ("external_consent", .bool (asked r).external)]), w')
      | (.error f, w') => (.error (rejectedAs 500 "Failed to persist consent: " f), w') := by
  have guard : ¬ (!(asked r).isSound) := by rw [sound]; decide
  have run : setConsent r = (do
      modify (granted (asked r))
      telling 500 "Failed to persist consent: " (persist (asked r))
      return .object [("data_consent", .bool (asked r).data), ("external_consent", .bool (asked r).external)]) := by
    exact if_neg guard
  rw [run, bind_of_ok (outcome_modify _ w), outcome_bind, telling, outcome_tryCatch]
  rcases (persist (asked r)).outcome (granted (asked r) w) with ⟨o, w'⟩
  cases o with
  | error f | ok u => rfl

/-- What a sound request comes to: the flags are those asked for whether or not the consent could be stored. -/
theorem setConsent_sound (sound : (asked r).isSound)
    (rooted : (w.disk.absolute (place w.context.home)).isAbsolute) : inForce ((setConsent r).outcome w).2 = asked r ∧
    (((setConsent r).outcome w).1.isOk ∧ Storable (asked r) w ∧
        Stored (asked r) w.disk ((setConsent r).outcome w).2.disk w.context.home ∨
      ((setConsent r).outcome w).1.isOk = false ∧ ¬ Storable (asked r) w) := by
  rw [outcome_setConsent sound]
  rcases persist_spec (w := granted (asked r) w) (asked r) rooted with
    ⟨storable, d, run, stored⟩ | ⟨unstorable, f, d, run⟩
  · rw [run]
    exact ⟨rfl, .inl ⟨rfl, storable, stored⟩⟩
  · rw [run]
    exact ⟨rfl, .inr ⟨rfl, unstorable⟩⟩

/-- The consent that the running program goes by and the one that is stored are in step after a call: one that fails
leaves the flags as they were, and after one that returns both are what was asked for and every other setting is what it
was. -/
structure InStep (r : Request) (w : Workspace) : Prop where
  failed : ((setConsent r).outcome w).1.isOk = false → inForce ((setConsent r).outcome w).2 = inForce w
  returned : ((setConsent r).outcome w).1.isOk → inForce ((setConsent r).outcome w).2 = asked r ∧
    ∃ before after, load w.disk w.context.home = .ok before ∧
      load ((setConsent r).outcome w).2.disk w.context.home = .ok after ∧
      after.get? "consented" = some (consentField (asked r)) ∧
      ∀ key, key ≠ "consented" → after.get? key = before.get? key

theorem inStep_of_failed (failed : ((setConsent r).outcome w).1.isOk = false) :
    InStep r w ↔ inForce ((setConsent r).outcome w).2 = inForce w := by
  refine ⟨fun inStep => inStep.failed failed, fun same => ⟨fun _ => same, fun returned => ?_⟩⟩
  rw [failed] at returned
  cases returned

theorem Stored.consented_iff {d' : Disk} (stored : Stored c d d' home) :
    (∃ before after, load d home = .ok before ∧ load d' home = .ok after ∧
      after.get? "consented" = some (consentField c) ∧
      ∀ key, key ≠ "consented" → after.get? key = before.get? key) ↔ load d home ≠ .ok .null := by
  rcases stored with ⟨read, read'⟩ | ⟨fs, read, read'⟩
  · refine ⟨?_, fun some_ => absurd read some_⟩
    rintro ⟨before, after, -, there, found, -⟩
    obtain rfl : .null = after := ok.inj (read'.symm.trans there)
    cases found
  · refine ⟨fun _ none_ => ?_, fun _ => ⟨.object fs, _, read, read', ?_, fun key other => ?_⟩⟩
    · rw [read] at none_
      cases none_
    · exact Value.get?_set_self (v := .object fs) rfl "consented" _
    · exact Value.get?_set_ne (.object fs) other _

/-- When the two are in step.  A request that is not sound changes nothing.  A sound one sets the flags whatever comes
of the rest, so it is in step when the consent could be stored and settings were there to take it, or when it could not
be stored and the flags were those asked for already. -/
theorem consent_in_step_iff (r : Request) (w : Workspace)
    (rooted : (w.disk.absolute (place w.context.home)).isAbsolute) :
    ((asked r).isSound = false → (setConsent r).outcome w =
      (.error (.reject 400 "External consent requires data consent to be enabled."), w)) ∧
    ((asked r).isSound = true → inForce ((setConsent r).outcome w).2 = asked r ∧
      (((setConsent r).outcome w).1.isOk = true ↔ Storable (asked r) w) ∧
      (Storable (asked r) w → Stored (asked r) w.disk ((setConsent r).outcome w).2.disk w.context.home)) ∧
    (InStep r w ↔ (asked r).isSound = false ∨ Storable (asked r) w ∧ load w.disk w.context.home ≠ .ok .null ∨
      ¬ Storable (asked r) w ∧ inForce w = asked r) := by
  refine ⟨fun unsound => setConsent_unsound unsound w, fun sound => ?_, ?_⟩
  · obtain ⟨flags, ⟨fine, storable, stored⟩ | ⟨broken, unstorable⟩⟩ := setConsent_sound sound rooted
    · exact ⟨flags, ⟨fun _ => storable, fun _ => fine⟩, fun _ => stored⟩
    · refine ⟨flags, ⟨fun fine => ?_, fun there => absurd there unstorable⟩, fun there => absurd there unstorable⟩
      rw [broken] at fine
      cases fine
  · cases sound : (asked r).isSound with
    | false =>
      have run := setConsent_unsound sound w
      refine ⟨fun _ => .inl rfl, fun _ => (inStep_of_failed ?_).mpr ?_⟩
      · rw [run]; rfl
      · rw [run]
    | true =>
      obtain ⟨flags, ⟨fine, storable, stored⟩ | ⟨broken, unstorable⟩⟩ := setConsent_sound sound rooted
      · have inStep : InStep r w ↔ load w.disk w.context.home ≠ .ok .null := by
          rw [← stored.consented_iff]
          refine ⟨fun inStep => (inStep.returned fine).2, fun kept => ⟨fun broken => ?_, fun _ => ⟨flags, kept⟩⟩⟩
          rw [fine] at broken
          cases broken
        rw [inStep]
        simp [storable]
      · rw [inStep_of_failed broken, flags]
        simp [unstorable, eq_comm]

def both : Request :=
  { args := .object [("payload", .object [("data_consent", .bool true), ("external_consent", .bool true)])] }

/-- A home without settings and defaults, and one whose settings are nothing. -/
def bare : Workspace :=
  { (default : Workspace) with disk := ⟨.dir [], ⟨"/", []⟩, "user", 0⟩, context := .ofHome ⟨"/", []⟩ }

def blank : Workspace :=
  { bare with
    disk := ⟨.dir [("User_config_files", .dir [("UserConfigs.json", .file ⟨.text "null", default, 0⟩)])],
      ⟨"/", []⟩, "user", 0⟩ }

/-- A call that fails leaves its consent in force, and one that returns may have stored none. -/
theorem consent_out_of_step :
    (((setConsent both).outcome bare).1.isOk = false ∧ inForce bare = ⟨false, false⟩ ∧
      inForce ((setConsent both).outcome bare).2 = ⟨true, true⟩ ∧ ¬ InStep both bare) ∧
    ((setConsent both).outcome blank).1.isOk = true ∧
      (load ((setConsent both).outcome blank).2.disk blank.context.home).toOption.map (Json.render .line) =
        some "null" := by
  have failed : ((setConsent both).outcome bare).1.isOk = false := by decide
  have flags : inForce ((setConsent both).outcome bare).2 = ⟨true, true⟩ := by decide
  refine ⟨⟨failed, rfl, flags, fun inStep => ?_⟩, by decide, by decide⟩
  exact absurd (flags.symm.trans (inStep.failed failed)) (by decide)

/-- Where settings are stored, consent is in step. -/
theorem consent_in_step_configured :
    inForce ((setConsent both).outcome configured).2 = ⟨true, true⟩ ∧ InStep both configured := by
  have stated := consent_in_step_iff both configured (by decide)
  have sound := stated.2.1 (by decide)
  have returned : ((setConsent both).outcome configured).1.isOk = true := by decide +kernel
  have some_ : load configured.disk configured.context.home ≠ .ok .null := by
    intro none_
    have shown : (load configured.disk configured.context.home).toOption.map (Json.render .line) =
      some "\x7b\"a\": 1\x7d" := by decide +kernel
    rw [none_] at shown
    exact absurd shown (by decide +kernel)
  exact ⟨sound.1.trans (by decide), stated.2.2.mpr (.inr (.inl ⟨sound.2.1.mp returned, some_⟩))⟩

end Folio.Api.Users
