/-
# Proofs.Api.Batches -- edits in one request and in several

The edits of a request are made on the document in memory, which is read from its file once, at the start.  After every
edit that did not fail it is the one that would be loaded now (`InHand`).  So a request can be cut in two at any place,
and an edit that fails leaves what the edits before it have saved (`batch_composes`).

Time may pass between two requests; `Mirrors` relates workspaces that differ in the times of their files.
-/
import Folio.Proofs.Api.Editing

namespace Folio.Cv

open Except

variable {f : Fault} {t : Document × Workspace}
  {d : Document} {w w' : Workspace} {file : Path} {e : Edit} {r r' : Except Fault Reply}
  {s s' : Document × Workspace}

theorem Ends.alike (ends : Ends d w file e r s) (ends' : Ends d w' file e r' s')
    (same : w'.disk.record file = w.disk.record file) {v : Reply} (fine : r = .ok v) :
    s'.1 = s.1 ∧ s'.2.disk.record file = s.2.disk.record file := by
  cases ends with
  | failed => cases fine
  | kept told applied =>
    cases ends' with
    | failed _ told' =>
      rw [told] at told'
      cases told'
    | kept => exact ⟨rfl, same⟩
    | saved _ applied' changed =>
      rw [applied] at applied'
      obtain rfl := ok.inj applied'
      cases changed
  | saved told applied changed _ written =>
    cases ends' with
    | failed _ told' =>
      rw [told] at told'
      cases told'
    | kept _ applied' =>
      rw [applied] at applied'
      obtain rfl := ok.inj applied'
      cases changed
    | saved _ applied' _ _ written' =>
      rw [applied] at applied'
      obtain rfl := ok.inj applied'
      exact ⟨rfl, written'.trans written.symm⟩

end Folio.Cv

namespace Folio.Api.Documents

open Cv (Kind Document Current)
open Cv.Editing (fileOf)

/-- The document in memory is the one that would be loaded now. -/
structure InHand (kind : Kind) (id : String) (home : Path) (s : Document × Workspace) : Prop where
  rooted : s.2.disk.current.isAbsolute
  home : s.2.context.home = home
  loads : Loads kind id s.2 s.1

/-- Two workspaces with the same document in hand, from files that say the same. -/
structure Mirrors (kind : Kind) (id : String) (home : Path) (s s' : Document × Workspace) : Prop where
  here : InHand kind id home s
  there : InHand kind id home s'
  document : s'.1 = s.1
  record : s'.2.disk.record (fileOf home kind id) = s.2.disk.record (fileOf home kind id)

variable {kind : Kind} {id : String} {home : Path} {s s' : Document × Workspace} {d : Document} {w : Workspace}

theorem InHand.mirrors (inHand : InHand kind id home s) : Mirrors kind id home s s := ⟨inHand, inHand, rfl, rfl⟩

theorem InHand.current (inHand : InHand kind id home (d, w)) :
    d.again = unread kind id w ∧ Current d w (fileOf home kind id) := by
  have opened := current_of_loads inHand.rooted inHand.loads
  rwa [inHand.home] at opened

theorem inHand_of_current (some_ : id ≠ "") (same : w.context.home = home) (again : d.again = unread kind id w)
    (current : Current d w (fileOf home kind id)) : InHand kind id home (d, w) := by
  refine ⟨current.rooted, same, loads_of_current some_ again ?_⟩
  rwa [same]

theorem InHand.at_time (inHand : InHand kind id home (d, w)) (t : Moment) :
    Mirrors kind id home (d, w) (d, { w with now := t }) := by
  obtain ⟨again, current⟩ := inHand.current
  have later : Current d { w with now := t } (fileOf home kind id) := ⟨current.place, current.rooted, current.loads⟩
  exact ⟨inHand, inHand_of_current (some_of_loads inHand.loads) inHand.home again later, rfl, rfl⟩

end Folio.Api.Documents

namespace Folio.Api.Entries

open List Or

open Cv (Kind Document Editing Edit Ends Current Reply)
open Cv.Editing (fileOf)
open Documents (InHand Mirrors Loads unread inHand_of_current some_of_loads)

variable {kind : Kind} {id : String} {home : Path} {d : Document} {w : Workspace} {s s' : Document × Workspace}

/-- The edits that a client can mean: none takes out a section, and connections alone are added. -/
def Askable : Edit → Prop
  | .removeSection _ => False
  | .add p _ => p = .connections
  | _ => True

theorem askable_of_meant {e : Value} {x : Edit} (asked : meant kind d e = .ok x) : Askable x := by
  unfold meant at asked
  dsimp only at asked
  split at asked
  · cases asked; trivial
  · split at asked <;> cases asked
    trivial
  · cases asked; trivial
  · cases asked; trivial
  · split at asked
    · cases asked; trivial
    · cases known : isKnown d (e.getOrNull "item_name").textOrEmpty with
      | error f => simp [known, Except.map] at asked
      | ok b =>
        rw [known] at asked
        cases b <;> cases asked
        · rfl
        · trivial
  · split at asked <;> cases asked
    trivial

theorem meant_keeps {e : Value} {x : Edit} (asked : meant kind d e = .ok x) (n : Value) : x ≠ .removeSection n := by
  rintro rfl
  exact askable_of_meant asked

theorem answer_error (field : String) (x : Edit) (f : Fault) : ∃ g, answer field x (.error f) = .error g := by
  cases x <;> exact ⟨_, rfl⟩

/-! ## One edit -/

section Step

variable {x : Edit} {r : Except Fault Reply} {field : String} (inHand : InHand kind id home (d, w))
  (ends : Ends d w (fileOf home kind id) x r s)

include inHand ends

theorem inHand_of_answer {t : String} (fine : answer field x r = .ok t) : InHand kind id home s := by
  obtain ⟨again, current⟩ := inHand.current
  cases ends with
  | @failed f _ _ =>
    obtain ⟨g, refused⟩ := answer_error field x f
    rw [refused] at fine
    cases fine
  | kept => exact inHand
  | saved _ applied _ after =>
    have akin := (Document.effect_of_apply applied).akin current.faithful.live
    refine inHand_of_current (some_of_loads inHand.loads) inHand.home ?_ after
    rw [Document.again, akin.kind, akin.name, akin.file]
    exact again

theorem unsaved_of_answer (kept : ∀ n, x ≠ .removeSection n) (refused : answer field x r = .error f) : s.2 = w := by
  obtain ⟨-, current⟩ := inHand.current
  cases ends with
  | failed | kept => rfl
  | saved _ applied changed =>
    have faithful := current.faithful
    have account := Document.account_of_apply faithful.live faithful.record kept applied
    obtain ⟨t, fine⟩ := answered_of_changed account changed field
    rw [fine] at refused
    cases refused

end Step

theorem mirrors_editOne (mirrors : Mirrors kind id home s s') (e : Value) :
    (∃ v t t', (editOne kind e).outcome s = (.ok v, t) ∧ (editOne kind e).outcome s' = (.ok v, t') ∧
      Mirrors kind id home t t') ∨
    ∃ f t t', (editOne kind e).outcome s = (.error f, t) ∧ (editOne kind e).outcome s' = (.error f, t') ∧
      t.2 = s.2 ∧ t'.2 = s'.2 := by
  obtain ⟨d, w⟩ := s
  obtain ⟨d', w'⟩ := s'
  obtain ⟨here, there, document, record⟩ := mirrors
  obtain rfl : d' = d := document
  rw [outcome_editOne, outcome_editOne]
  cases asked : meant kind d' e with
  | error f => exact inr ⟨f, _, _, rfl, rfl, rfl, rfl⟩
  | ok x =>
    have kept := meant_keeps asked
    have ends := here.current.2.ends kept
    have ends' := there.current.2.ends kept
    have told : ((Editing.edit x).outcome (d', w')).1 = ((Editing.edit x).outcome (d', w)).1 :=
      ends'.told.trans ends.told.symm
    dsimp only
    rw [told]
    cases answered : answer (e.getOrNull "field").textOrEmpty x ((Editing.edit x).outcome (d', w)).1 with
    | ok t =>
      have here' := inHand_of_answer here ends answered
      have there' := inHand_of_answer there ends' (told ▸ answered)
      obtain ⟨v, fine⟩ : ∃ v, ((Editing.edit x).outcome (d', w)).1 = .ok v := by
        cases result : ((Editing.edit x).outcome (d', w)).1 with
        | ok v => exact ⟨v, rfl⟩
        | error f =>
          obtain ⟨g, refused⟩ := answer_error (e.getOrNull "field").textOrEmpty x f
          rw [result, refused] at answered
          cases answered
      obtain ⟨document, saved⟩ := ends.alike ends' record fine
      exact inl ⟨.text t, _, _, rfl, rfl, here', there', document, saved⟩
    | error f =>
      have here' := unsaved_of_answer here ends kept answered
      have there' := unsaved_of_answer there ends' kept (told ▸ answered)
      exact inr ⟨f, _, _, rfl, rfl, here', there'⟩

/-! ## Many edits -/

/-- The same edits of the same document in two workspaces are answered in the same way, and the same is saved. -/
theorem mirrors_edits (mirrors : Mirrors kind id home s s') (es : List Value) :
    (∃ vs t t', (es.mapM (editOne kind)).outcome s = (.ok vs, t) ∧
      (es.mapM (editOne kind)).outcome s' = (.ok vs, t') ∧ Mirrors kind id home t t') ∨
    ∃ f t t', (es.mapM (editOne kind)).outcome s = (.error f, t) ∧
      (es.mapM (editOne kind)).outcome s' = (.error f, t') ∧
      t'.2.disk.record (fileOf home kind id) = t.2.disk.record (fileOf home kind id) := by
  induction es generalizing s s' with
  | nil => exact inl ⟨[], s, s', rfl, rfl, mirrors⟩
  | cons e es ih =>
    simp only [mapM_cons]
    rcases mirrors_editOne mirrors e with ⟨v, t, t', first, first', next⟩ | ⟨f, t, t', first, first', same, same'⟩
    · rw [Editing.bind_of_ok first, Editing.bind_of_ok first']
      rcases ih next with ⟨vs, u, u', rest, rest', last⟩ | ⟨f, u, u', rest, rest', last⟩
      · rw [Editing.bind_of_ok rest, Editing.bind_of_ok rest']
        exact inl ⟨v :: vs, u, u', rfl, rfl, last⟩
      · refine inr ⟨f, u, u', ?_, ?_, last⟩
        · rw [Editing.outcome_bind, rest]
        · rw [Editing.outcome_bind, rest']
    · refine inr ⟨f, t, t', ?_, ?_, ?_⟩
      · rw [Editing.outcome_bind, first]
      · rw [Editing.outcome_bind, first']
      · rw [same, same']
        exact mirrors.record

theorem failed_at (inHand : InHand kind id home s) {es : List Value}
    (failed : (es.mapM (editOne kind)).outcome s = (.error f, t)) : ∃ i < es.length,
      (∃ vs u, ((es.take i).mapM (editOne kind)).outcome s = (.ok vs, u) ∧ u.2 = t.2) ∧
      ∃ u, ((es.take (i + 1)).mapM (editOne kind)).outcome s = (.error f, u) ∧ u.2 = t.2 := by
  induction es generalizing s with
  | nil => cases failed
  | cons e es ih =>
    rw [mapM_cons] at failed
    rcases mirrors_editOne inHand.mirrors e with ⟨v, u, _, first, -, next⟩ | ⟨g, u, _, first, -, same, -⟩
    · rw [Editing.bind_of_ok first, Editing.outcome_bind] at failed
      rcases rest : (es.mapM (editOne kind)).outcome u with ⟨r, u₁⟩
      rw [rest] at failed
      cases r with
      | ok vs => cases failed
      | error g =>
        cases failed
        obtain ⟨i, below, ⟨vs, u₂, made, same⟩, u₃, stops, same'⟩ := ih next.here rest
        refine ⟨i + 1, Nat.succ_lt_succ below, ⟨v :: vs, u₂, ?_, same⟩, u₃, ?_, same'⟩
        · rw [take_succ_cons, mapM_cons, Editing.bind_of_ok first,
            Editing.bind_of_ok made, Editing.outcome_pure]
        · rw [take_succ_cons, mapM_cons, Editing.bind_of_ok first, Editing.outcome_bind, stops]
    · rw [Editing.outcome_bind, first] at failed
      cases failed
      refine ⟨0, Nat.zero_lt_succ _, ⟨[], s, rfl, same.symm⟩, t, ?_, rfl⟩
      rw [take_succ_cons, mapM_cons, Editing.outcome_bind, first]

/-! ## Requests -/

def editsOf (r : Request) : List Value := (r.body.getOrNull "edits").itemsOrEmpty

def results (vs : List Value) : Value := .object [("results", .list vs)]

theorem outcome_edit {r : Request} (loads : Loads kind (Documents.idOf kind r) w d) :
    (edit kind r).outcome w = ((((editsOf r).mapM (editOne kind)).outcome (d, w)).1.map results,
      (((editsOf r).mapM (editOne kind)).outcome (d, w)).2.2) := by
  rw [edit, Documents.outcome_opened loads]
  have work : (do return .object [("results", .list (← (r.body.getOrNull "edits").itemsOrEmpty.mapM (editOne kind)))] :
      Editing Value) = results <$> (editsOf r).mapM (editOne kind) := rfl
  rw [work, Editing.outcome_map]

theorem outcome_append (es es' : List Value) {vs : List Value}
    (first : (es.mapM (editOne kind)).outcome s = (.ok vs, t)) : ((es ++ es').mapM (editOne kind)).outcome s =
      (((es'.mapM (editOne kind)).outcome t).1.map (vs ++ ·), ((es'.mapM (editOne kind)).outcome t).2) := by
  rw [mapM_append, Editing.bind_of_ok first, Editing.outcome_bind]
  rcases (es'.mapM (editOne kind)).outcome t with ⟨r, u⟩
  cases r <;> rfl

/-- Two requests for edits do what one request for all of them does.  The second one comes at any time;
it is answered as the rest of the whole is, and both leave the same record in the file.  Where a request
fails, it fails at one of its edits: the edits before that one are made by a request of their own, which
leaves the very workspace that the failing request leaves. -/
theorem batch_composes {r : Request} (rooted : w.disk.current.isAbsolute = true)
    (loads : Loads kind (Documents.idOf kind r) w d) :
    (∀ (r₁ r₂ : Request) (vs₁ : List Value) (w₁ : Workspace) (t : Moment),
      Documents.idOf kind r₁ = Documents.idOf kind r → Documents.idOf kind r₂ = Documents.idOf kind r →
      editsOf r = editsOf r₁ ++ editsOf r₂ → (edit kind r₁).outcome w = (.ok (results vs₁), w₁) →
      ((edit kind r).outcome w).2.disk.record (fileOf w.context.home kind (Documents.idOf kind r)) =
          ((edit kind r₂).outcome { w₁ with now := t }).2.disk.record
            (fileOf w.context.home kind (Documents.idOf kind r)) ∧
        ((∃ vs₂, ((edit kind r₂).outcome { w₁ with now := t }).1 = .ok (results vs₂) ∧
            ((edit kind r).outcome w).1 = .ok (results (vs₁ ++ vs₂))) ∨
          ∃ f, ((edit kind r₂).outcome { w₁ with now := t }).1 = .error f ∧
            ((edit kind r).outcome w).1 = .error f)) ∧
    ∀ (f : Fault) (w' : Workspace), (edit kind r).outcome w = (.error f, w') →
      ∃ i < (editsOf r).length, ∀ r' : Request, Documents.idOf kind r' = Documents.idOf kind r →
        (editsOf r' = (editsOf r).take i → ∃ vs, (edit kind r').outcome w = (.ok (results vs), w')) ∧
        (editsOf r' = (editsOf r).take (i + 1) → (edit kind r').outcome w = (.error f, w')) := by
  have inHand : InHand kind (Documents.idOf kind r) w.context.home (d, w) := ⟨rooted, rfl, loads⟩
  constructor
  · intro r₁ r₂ vs₁ w₁ t id₁ id₂ whole first
    rw [outcome_edit (by rwa [id₁])] at first
    rcases mirrors_edits inHand.mirrors (editsOf r₁) with ⟨vs, s₁, _, made, -, after⟩ | ⟨f, s₁, _, failed, -, -⟩
    · rw [made] at first
      obtain ⟨same, rfl⟩ := Prod.mk.inj first
      cases same
      have later := after.here.at_time t
      have loads₂ : Loads kind (Documents.idOf kind r₂) { s₁.2 with now := t } s₁.1 := by
        rw [id₂]
        exact later.there.loads
      rw [outcome_edit loads, outcome_edit loads₂, whole, outcome_append _ _ made]
      rcases mirrors_edits later (editsOf r₂) with ⟨vs₂, u, u', rest, rest', last⟩ | ⟨f, u, u', rest, rest', last⟩
      · rw [rest, rest']
        exact ⟨last.record.symm, Or.inl ⟨vs₂, rfl, rfl⟩⟩
      · rw [rest, rest']
        exact ⟨last.symm, Or.inr ⟨f, rfl, rfl⟩⟩
    · rw [failed] at first
      cases first
  · intro f w' failed
    rw [outcome_edit loads] at failed
    rcases run : ((editsOf r).mapM (editOne kind)).outcome (d, w) with ⟨result, s⟩
    rw [run] at failed
    cases result with
    | ok vs => cases failed
    | error g =>
        cases failed
        obtain ⟨i, below, ⟨vs, u, made, same⟩, u', stops, same'⟩ := failed_at inHand run
        refine ⟨i, below, fun r' id' => ⟨fun few => ⟨vs, ?_⟩, fun more => ?_⟩⟩
        · rw [outcome_edit (by rwa [id']), few, made, ← same]
          rfl
        · rw [outcome_edit (by rwa [id']), more, stops, ← same']
          rfl

theorem results_of_isOk {r : Request} (loads : Loads kind (Documents.idOf kind r) w d)
    (fine : ((edit kind r).outcome w).1.isOk) : ∃ vs w', (edit kind r).outcome w = (.ok (results vs), w') := by
  rw [outcome_edit loads] at fine ⊢
  cases made : (((editsOf r).mapM (editOne kind)).outcome (d, w)).1 with
  | error f =>
    rw [made] at fine
    cases fine
  | ok vs => exact ⟨vs, _, rfl⟩

def janesRequest (es : List Value) : Request :=
  ⟨.object [("id", .text "Jane Doe"), ("payload", .object [("edits", .list es)])], none⟩

theorem idOf_janesRequest (es : List Value) : Documents.idOf .resume (janesRequest es) = "Jane Doe" := rfl

theorem editsOf_janesRequest (es : List Value) : editsOf (janesRequest es) = es := rfl

def themeEdit (name : String) : Value :=
  .object [("section", .text "theme"), ("field", .text "theme"), ("new_value", .text name)]

/-- One theme that there is, and one that there is not: the file keeps the first one. -/
theorem themes_in_two_requests :
    ∃ (d : Document) (vs : List Value) (w₁ : Workspace), Loads .resume "Jane Doe" Cv.madeResume.2 d ∧
      (edit .resume (janesRequest [themeEdit "classic"])).outcome Cv.madeResume.2 = (.ok (results vs), w₁) ∧
      (∀ t : Moment,
        ((edit .resume (janesRequest [themeEdit "classic", themeEdit "none"])).outcome Cv.madeResume.2).2.disk.record
            (fileOf Cv.madeResume.2.context.home .resume "Jane Doe") =
          ((edit .resume (janesRequest [themeEdit "none"])).outcome { w₁ with now := t }).2.disk.record
            (fileOf Cv.madeResume.2.context.home .resume "Jane Doe")) ∧
      ∃ f w', (edit .resume (janesRequest [themeEdit "classic", themeEdit "none"])).outcome Cv.madeResume.2 =
          (.error f, w') ∧
        ∃ i < 2, ∀ r' : Request, Documents.idOf .resume r' = "Jane Doe" →
          (editsOf r' = [themeEdit "classic", themeEdit "none"].take i →
            ∃ vs, (edit .resume r').outcome Cv.madeResume.2 = (.ok (results vs), w')) := by
  have fine : ((Cv.Editing.load (some "Jane Doe")).outcome ({ kind := .resume }, Cv.madeResume.2)).1.isOk = true := by
    decide +kernel
  obtain ⟨v, s, run⟩ := Action.ok_of_isOk fine
  have loads : Loads .resume "Jane Doe" Cv.madeResume.2 s.1 := Documents.loads_of_ok run
  have first : ((edit .resume (janesRequest [themeEdit "classic"])).outcome Cv.madeResume.2).1.isOk = true := by
    decide +kernel
  obtain ⟨vs, w₁, one⟩ := results_of_isOk (by rwa [idOf_janesRequest]) first
  have second : ((edit .resume (janesRequest [themeEdit "classic", themeEdit "none"])).outcome
      Cv.madeResume.2).1.isOk = false := by decide +kernel
  obtain ⟨f, w', both⟩ := Action.error_of_isOk second
  have rooted : Cv.madeResume.2.disk.current.isAbsolute = true := by decide +kernel
  obtain ⟨composes, breaks⟩ := batch_composes (r := janesRequest [themeEdit "classic", themeEdit "none"]) rooted
    (by rwa [idOf_janesRequest])
  simp only [idOf_janesRequest, editsOf_janesRequest] at composes breaks
  refine ⟨s.1, vs, w₁, loads, one, fun t => ?_, f, w', both, ?_⟩
  · exact (composes _ (janesRequest [themeEdit "none"]) vs w₁ t (idOf_janesRequest _) (idOf_janesRequest _)
      (by rw [editsOf_janesRequest, editsOf_janesRequest]; rfl) one).1
  · obtain ⟨i, below, made⟩ := breaks f w' both
    exact ⟨i, below, fun r' same few => (made r' same).1 few⟩

end Folio.Api.Entries
