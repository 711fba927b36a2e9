/-
# Proofs.Thumbnail -- failed uploads

Old thumbnails go before the new picture is known to fit.
-/
import Folio.Thumbnail
import Folio.Proofs.Action

namespace Folio.Thumbnail

open Action List

variable {dir file : Path} {project : String} {resize : Bool} {r : Refusal} {w w' : Workspace}

theorem outcome_dropAll {xs : List String} (nothing : findIn? xs w.disk dir project = .ok none) :
    (forIn xs PUnit.unit fun s _ => do
      drop (place dir project s)
      pure (ForInStep.yield PUnit.unit) : Action PUnit).outcome w = (.ok (), w) := by
  induction xs with
  | nil => rfl
  | cons s xs ih =>
    rw [findIn?, map_cons, findM?] at nothing
    obtain ⟨_ | _, asked, nothing⟩ := ok_of_bind nothing
    · have idle : (drop (place dir project s)).outcome w = (.ok (), w) := by
        simp only [drop, outcome_bind, outcome_ask, asked]
        rfl
      rw [forIn_cons]
      simp only [outcome_bind, idle, outcome_pure, ih nothing]
    · cases nothing

theorem store_keeps {p : Path} {pic : Picture} {format : String} {f : Fault}
    (safe : w.disk.present p = false ∨ (pic.written? format).isSome)
    (ran : (store p pic format).outcome w = (.error f, w')) : w' = w := by
  unfold store at ran
  cases fits : pic.written? format with
  | some p =>
    simp only [fits, outcome_write] at ran
    grind
  | none =>
    simp only [fits, outcome_bind, outcome_disk, safe.resolve_right (by simp [fits])] at ran
    exact (Prod.mk.inj ran).2.symm

/-- A failed upload leaves all as it was, unless it is to replace a thumbnail in another format, or one in a format that
cannot hold the new picture. -/
theorem failed_upload_keeps (ran : (add dir project file resize).outcome w = (.ok (.error r), w'))
    (safe : r = .unprocessed → findIn? (suffixes.filter (· != Text.lower file.suffix)) w.disk dir project = .ok none ∧
      (w.disk.present (place dir project (Text.lower file.suffix)) = false ∨ ∀ pic, validate w.disk file = .ok pic →
        ∃ format ∈ Picture.formatOf? (Text.lower file.suffix), ((prepared pic format resize).written? format).isSome)) :
    w' = w := by
  unfold add at ran
  simp only [outcome_bind, outcome_discard, outcome_ask] at ran
  cases asked : w.disk.exists? file with
  | error f => simp [asked, Except.map] at ran
  | ok _ =>
    simp only [asked, Except.map, outcome_disk] at ran
    cases valid : validate w.disk file with
    | error _ =>
      rw [valid] at ran
      exact (Prod.mk.inj ran).2.symm
    | ok pic =>
      simp only [valid, outcome_bind, outcome_attempt, outcome_pure, Prod.mk.injEq, Except.ok.injEq] at ran
      obtain ⟨failed, rfl⟩ := ran
      rcases ended : (replace dir project file resize).outcome w with ⟨_ | p, w'⟩
      · rw [ended] at failed
        cases failed
        obtain ⟨nothing, fits⟩ := safe rfl
        unfold replace dropOthers at ended
        simp only [outcome_bind, outcome_dropAll nothing, outcome_disk, outcome_pure, valid] at ended
        generalize stored : (store _ _ _).outcome w = result at ended
        rcases result with ⟨_ | _, mid⟩
        · obtain ⟨-, rfl⟩ := Prod.mk.inj ended
          refine store_keeps (fits.imp_right fun each => ?_) stored
          obtain ⟨format, known, some_⟩ := each pic valid
          rwa [Option.mem_def.1 known]
        · cases ended
      · rw [ended] at failed
        cases failed

def album (thumbnails : List (String × Picture)) : Workspace :=
  { (default : Workspace) with
    disk := { (default : Disk) with root := .dir [
      ("b.jpg", .file ⟨.picture ⟨4, 3, "LA", "PNG"⟩, default, 0⟩),
      ("th", .dir (thumbnails.map fun (name, pic) => (name, .file ⟨.picture pic, default, 0⟩)))] } }

def upload : Action (Except Refusal Path) := add ⟨"/", ["th"]⟩ "p" ⟨"/", ["b.jpg"]⟩ false

theorem first_upload_keeps : (upload.outcome (album [])).2 = album [] :=
  failed_upload_keeps (show upload.outcome _ = (.ok (.error .unprocessed), _) from rfl) fun _ => ⟨rfl, .inl rfl⟩

/-- A picture that cannot be converted costs a project its thumbnail. -/
theorem failed_upload_loses : (upload.outcome (album [("p.png", ⟨4, 3, "RGB", "PNG"⟩)])).1 = .ok (.error .unprocessed) ∧
    (upload.outcome (album [("p.png", ⟨4, 3, "RGB", "PNG"⟩)])).2.disk.root.at? ["th", "p.png"] = none := ⟨rfl, rfl⟩

end Folio.Thumbnail
