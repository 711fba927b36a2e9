/-
# Proofs.Api.Deleting -- where a deletion reaches

Deleting a project writes the store's file over, deletes one file, and may put a log aside that cannot be read
(`loses_erase`).  The file lies in one of the directories of saved projects, as far as the request is held to them: a
path of the client's choice is checked with its home mark expanded and deleted without, and an identifier is not checked
at all (`deletion_confined`).
-/
import Folio.Proofs.Analysis
import Folio.Proofs.Saved.Shelf

namespace Folio

open Action Disk List Or Path Saved Store.Session String

variable {d : Disk} {dirs : List Path} {file id : String} {place : Option Path} {w : Workspace}

/-! ## The store -/

namespace Store.Session

theorem state_work {α : Type} {without : Except Fault α} {step : Store → Action α} {P : Workspace → Prop} (idle : P w)
    (stepped : ∀ s, w.disk.content w.context.storeFile = .ok (.store s) → P ((step s).outcome w).2) :
    P ((work without step).outcome w).2 := by
  have asked : connection.outcome w = (.ok w.context.connection, w) := rfl
  rw [work, bind_of_ok asked]
  cases w.context.connection with
  | absent | closed => exact idle
  | live =>
    have read : (∃ s, w.disk.content w.context.storeFile = .ok (.store s) ∧ tables.outcome w = (.ok s, w)) ∨
        tables.outcome w = (.error noTables, w) := by
      rw [tables, bind_of_ok (outcome_disk w), bind_of_ok (outcome_get w)]
      split
      · rename_i s holds
        exact inl ⟨s, holds, rfl⟩
      · exact inr rfl
    rcases read with ⟨s, holds, read⟩ | failed
    · rw [bind_of_ok read]
      exact stepped s holds
    · rw [outcome_bind, failed]
      exact idle

theorem state_count (name : String) : ((count name).outcome w).2 = w :=
  state_work (P := (· = w)) rfl fun _ _ => rfl

def Rewritten (w w' : Workspace) : Prop :=
  ∃ d, w' = { w with disk := d } ∧ d.current = w.disk.current ∧ w.disk.root.Alike d.root

theorem alike_delete (rooted : w.disk.current.isAbsolute) (name : String) :
    Rewritten w ((delete name).outcome w).2 := by
  have still : Rewritten w w := ⟨w.disk, rfl, rfl, fun _ => rfl⟩
  refine state_work still fun s holds => ?_
  obtain ⟨f, found, -⟩ := file_of_content holds
  have kept : (keep (s.delete name)).outcome w = (write w.context.storeFile (.store (s.delete name))).outcome w :=
    bind_of_ok (outcome_get w)
  rw [outcome_bind, kept, outcome_write]
  cases written : w.disk.write w.context.storeFile (.store (s.delete name)) w.now with
  | error f => exact still
  | ok d =>
    obtain ⟨place, -, frame⟩ := frame_write written
    exact ⟨d, rfl, frame.current, alike_write (isAbsolute_join rooted _) found written⟩

end Store.Session

/-! ## The log -/

namespace Insight.Log

variable {p : Path}

/-- The place where a log stood, in whose directory something has the name now that logs are put aside under. -/
def PutAside (p : Path) (w w' : Workspace) (way : List String) : Prop :=
  w.disk.unfollowed p = .ok way ∧ (w'.disk.root.at? (way.dropLast ++ [asideName w.now p.name])).isSome

theorem loses_store (p : Path) (es : List Value) (w : Workspace) :
    w.disk.Loses (fun _ => False) ((store p es).outcome w).2.disk := by
  rw [store, outcome_store]
  cases made : w.disk.makeDirs p.parent with
  | error f => exact .refl
  | ok d =>
    dsimp only
    split
    · rw [outcome_write]
      cases written : d.write p (.document .pretty (.list es)) w.now with
      | error f => exact loses_makeDirs made
      | ok d' => exact (loses_makeDirs made).trans (loses_write written)
    · exact loses_makeDirs made

theorem loses_removeProject (rooted : w.disk.current.isAbsolute) (named : p.parts ≠ []) (notUp : p.name ≠ "..")
    (name : Value) :
    w.disk.Loses (PutAside p w ((removeProject p name).outcome w).2) ((removeProject p name).outcome w).2.disk := by
  rcases entries_cases p w with ⟨r, read, -⟩ | ⟨f, d, found, -, renamed, run⟩
  · have same : ((entries p).outcome w).2 = w := congrArg Prod.snd read
    have nothing : w.disk.Loses (fun _ => False) ((removeProject p name).outcome w).2.disk := by
      refine state_bind (P := fun w' => w.disk.Loses (fun _ => False) w'.disk) (fun _ _ => ?_) fun es _ => ?_
      · rw [same]
        exact .refl
      rw [same, outcome_bind, outcome_lift]
      cases ofOthers name es with
      | error f => exact .refl
      | ok kept =>
        dsimp only
        split
        · have stored := loses_store p kept w
          exact state_bind (P := fun w' => w.disk.Loses (fun _ => False) w'.disk) (fun _ _ => stored)
            fun _ _ => stored
        · exact .refl
    exact nothing.mono fun _ => False.elim
  · have ended : (removeProject p name).outcome w = (.ok 0, { w with disk := d }) := by
      rw [removeProject, removeProjectAfter, bind_of_ok run]
      rfl
    rw [ended]
    intro way some_ gone
    obtain ⟨place, aside⟩ :=
      loses_rename (isAbsolute_join rooted _) named notUp found renamed way some_ gone
    exact ⟨place, aside ▸ some_⟩

end Insight.Log

/-! ## Saved files -/

namespace Saved

theorem outcome_searched (w : Workspace) : searched.outcome w = (searchDir w, w) := rfl

theorem mem_placesOf {dir p : Path} : p ∈ placesOf dir file ↔ p = dir.child file ∨ p = dir.parent.child file := by
  rw [placesOf, mem_cons, mem_singleton]

theorem mem_of_firstThere? {ps : List Path} {p : Path} (found : firstThere? d ps = .ok (some p)) : p ∈ ps := by
  induction ps with
  | nil => cases found
  | cons q ps ih =>
    obtain ⟨there, -, found⟩ := ok_of_bind found
    cases there with
    | true =>
      cases found
      exact mem_cons_self
    | false => exact mem_cons_of_mem _ (ih found)

/-- Deleting a file leaves everything as it is and is not done, or deletes what the first of its two paths leads to. -/
theorem deleteFile_cases (file : String) (w : Workspace) : (∃ r, (deleteFile file).outcome w = (r, w) ∧ r ≠ .ok true) ∨
    ∃ dir p d, searchDir w = .ok dir ∧ firstThere? w.disk (placesOf dir file) = .ok (some p) ∧
      w.disk.unlink p = .ok d ∧ (deleteFile file).outcome w = (.ok true, { w with disk := d }) := by
  unfold deleteFile
  split
  · exact inl ⟨_, rfl, nofun⟩
  have find : (find? file).outcome w = (do firstThere? w.disk (placesOf (← searchDir w) file), w) := by
    rw [find?, outcome_bind, outcome_searched]
    cases searchDir w <;> rfl
  rw [outcome_bind, find]
  cases searched : searchDir w with
  | error f => exact inl ⟨_, rfl, nofun⟩
  | ok dir =>
    have second (next : Path → Except Fault (Option Path)) : (Except.ok dir >>= next) = next dir := rfl
    rw [second]
    cases found : firstThere? w.disk (placesOf dir file) with
    | error f => exact inl ⟨_, rfl, nofun⟩
    | ok first =>
      cases first with
      | none => exact inl ⟨_, rfl, nofun⟩
      | some p =>
        dsimp only
        rw [outcome_bind, outcome_attempt, state_count]
        dsimp only
        split
        · rw [outcome_bind, outcome_attempt, outcome_change]
          cases unlinked : w.disk.unlink p with
          | error f => exact inl ⟨_, rfl, nofun⟩
          | ok d => exact inr ⟨dir, p, d, rfl, found, unlinked, rfl⟩
        · exact inl ⟨_, rfl, nofun⟩

end Saved

/-! ## The request -/

namespace Disk

/-- A place is in a directory, as the directory is named or where it leads. -/
def Inside (d : Disk) (dir : Path) (way : List String) : Prop :=
  dir.parts <+: way ∨ (d.resolved dir).parts <+: way

instance (d : Disk) (dir : Path) (way : List String) : Decidable (d.Inside dir way) :=
  inferInstanceAs (Decidable (dir.parts <+: way ∨ (d.resolved dir).parts <+: way))

end Disk

namespace Api.Projects

variable {r : Request} {way : List String} {dir : Path} {p : Path}

theorem outcome_allowedDirs (w : Workspace) :
    allowedDirs.outcome w = ((searchDir w).map fun dir => [dir, w.disk.resolved dir.parent], w) := by
  rw [allowedDirs, outcome_bind, outcome_searched]
  cases searchDir w <;> rfl

theorem allowedDirs_of_searched (searched : searchDir w = .ok dir) :
    allowedDirs.outcome w = (.ok [dir, w.disk.resolved dir.parent], w) := by
  rw [outcome_allowedDirs, searched]
  rfl

theorem delete_cases (r : Request) (w : Workspace) : ((delete r).outcome w).2 = w ∨ ∃ dir, searchDir w = .ok dir ∧
      (objectionTo [dir, w.disk.resolved dir.parent] (fileOf (r.text "id")) (chosenPlace r)).outcome w = (.ok none, w) ∧
      (delete r).outcome w = (erase (fileOf (r.text "id")) (chosenPlace r)).outcome w := by
  unfold delete
  dsimp only
  split
  · exact inl rfl
  rw [outcome_bind, outcome_allowedDirs]
  cases searchDir w with
  | error f => exact inl rfl
  | ok dir =>
    dsimp only [Except.map]
    have same (dirs : List Path) (file : String) (place : Option Path) :
        ((objectionTo dirs file place).outcome w).2 = w := by
      cases place <;> rfl
    rw [outcome_bind]
    cases asked : (objectionTo [dir, w.disk.resolved dir.parent] (fileOf (r.text "id")) (chosenPlace r)).outcome w with
    | mk words w' =>
      obtain rfl : w' = w := (congrArg Prod.snd asked).symm.trans (same _ _ _)
      cases words with
      | error f => exact inl rfl
      | ok words =>
        cases words with
        | some words => exact inl rfl
        | none => exact inr ⟨dir, rfl, asked, rfl⟩

theorem of_objection?_none (clear : objection? w dirs file p = .ok none) :
    p.name = file ∧ ∃ q, w.services.expanded p = .ok q ∧ liesIn w.disk dirs q := by
  unfold objection? at clear
  split at clear
  · cases clear
  split at clear
  · cases clear
  rename_i own
  obtain ⟨q, expanded, clear⟩ := ok_of_bind clear
  split at clear
  · cases clear
  rename_i within_
  exact ⟨by simpa using own, q, expanded, by simpa using within_⟩

/-! ### What a request may delete -/

theorem inside_of_liesIn (named : p.parts ≠ []) (notUp : p.name ≠ "..")
    (lies : liesIn d dirs p) (place : d.unfollowed p = .ok way) : ∃ dir ∈ dirs, d.Inside dir way := by
  obtain ⟨real, located, rfl⟩ := unfollowed_parent named notUp place
  obtain ⟨dir, member, under⟩ := any_eq_true.1 lies
  refine ⟨dir, member, inl ?_⟩
  rw [resolved_of_locate located, relativeTo?] at under
  split at under
  · rename_i is
    rw [isUnder, Bool.and_eq_true] at is
    exact isPrefixOf_iff_prefix.1 is.2
  · cases under

theorem inside_of_plain (plain : '/' ∉ id.toList)
    (candidate : p ∈ placesOf dir (fileOf id)) (place : d.unfollowed p = .ok way) :
    ∃ above ∈ [dir, d.resolved dir.parent], d.Inside above way := by
  have entry : IsEntry (fileOf id) :=
    ⟨⟨fileOf_ne (by decide) id, fileOf_ne (by decide) id, noSlash_fileOf plain⟩, fileOf_ne (by decide) id⟩
  have named (q : Path) : (q.child (fileOf id)).parts ≠ [] ∧ (q.child (fileOf id)).name = fileOf id ∧
      (q.child (fileOf id)).parent = q := by
    rw [child_of_isName entry.toIsName]
    simp [Path.entry, name, parent]
  have stands {q : Path} (place : d.unfollowed (q.child (fileOf id)) = .ok way) : (d.resolved q).parts <+: way := by
    obtain ⟨some_, last, above⟩ := named q
    have notUp : (q.child (fileOf id)).name ≠ ".." := by
      rw [last]
      exact entry.notUp
    obtain ⟨real, located, rfl⟩ := unfollowed_parent some_ notUp place
    rw [above] at located
    rw [resolved_of_locate located]
    exact prefix_append _ _
  rcases mem_placesOf.1 candidate with here | above
  · rw [here] at place
    exact ⟨dir, mem_cons_self, inr (stands place)⟩
  · rw [above] at place
    exact ⟨_, mem_cons_of_mem _ mem_cons_self, inl (stands place)⟩

def Sought (w : Workspace) (file : String) (place : Option Path) (p : Path) : Prop :=
  place = some p ∨ place = none ∧ ∃ dir, searchDir w = .ok dir ∧ p ∈ placesOf dir file

theorem Sought.alike (sought : Sought { w with disk := d } file place p) (alike : w.disk.root.Alike d.root)
    (current : d.current = w.disk.current) : Sought w file place p := by
  rcases sought with chosen | ⟨none_, dir, searched, candidate⟩
  · exact inl chosen
  · -- The directory depends on names, directories and links only.
    simp only [searchDir, resolved_alike alike current] at searched
    exact inr ⟨none_, dir, searched, candidate⟩

theorem Sought.named (sought : Sought w (fileOf id) place p)
    (own : ∀ q, place = some q → q.name = fileOf id) : p.parts ≠ [] ∧ p.name ≠ ".." := by
  rcases sought with chosen | ⟨-, dir, -, candidate⟩
  · have last := own p chosen
    refine ⟨fun none_ => ?_, last ▸ fileOf_ne (by decide) id⟩
    refine fileOf_ne (x := "") (by decide) id (last.symm.trans ?_)
    rw [name, none_]
    rfl
  · obtain ⟨cs, file⟩ := suffix_fileOf id
    have split_ : fileOf id = ofList cs ++ ".json" := by
      rw [← toList_inj, toList_append, toList_ofList, file]
    have child (q : Path) : (q.child (fileOf id)).parts ≠ [] ∧ (q.child (fileOf id)).name ≠ ".." := by
      have noSlash : '/' ∉ ".json".toList := by decide
      obtain ⟨some_, x, last⟩ := name_ofString (ofList cs) noSlash (by decide)
      rw [← split_] at some_ last
      obtain ⟨some_', same⟩ := name_join (p := q) some_
      refine ⟨some_', ?_⟩
      rw [child, same, last]
      exact Text.ne_of_mem 'j' (by simp) (by decide)
    rcases mem_placesOf.1 candidate with here | above
    · rw [here]
      exact child dir
    · rw [above]
      exact child dir.parent

theorem deleteSaved_cases (file : String) (place : Option Path) (w : Workspace) :
    ((deleteSaved file place).outcome w).2 = w ∨ ∃ p d, Sought w file place p ∧ w.disk.unlink p = .ok d ∧
      ((deleteSaved file place).outcome w).2 = { w with disk := d } := by
  cases place with
  | some p =>
    rw [deleteSaved, outcome_bind, outcome_attempt, outcome_change]
    cases unlinked : w.disk.unlink p with
    | error f => exact inl rfl
    | ok d => exact inr ⟨p, d, inl rfl, unlinked, rfl⟩
  | none =>
    have state : ((deleteSaved file none).outcome w).2 = ((deleteFile file).outcome w).2 := by
      rw [deleteSaved, outcome_bind]
      rcases (deleteFile file).outcome w with ⟨r, w'⟩
      cases r with
      | error f => rfl
      | ok done => cases done <;> rfl
    rw [state]
    rcases deleteFile_cases file w with ⟨r, run, -⟩ | ⟨dir, p, d, searched, found, unlinked, run⟩
    · exact inl (congrArg Prod.snd run)
    · exact inr ⟨p, d, inr ⟨rfl, dir, searched, mem_of_firstThere? found⟩, unlinked, congrArg Prod.snd run⟩

/-- The place of a log that was put aside. -/
def Aside (w w' : Workspace) (way : List String) : Prop :=
  ∃ dir, w.context.filesDir = some dir ∧ Insight.Log.PutAside (dir.entry "project_insights.json") w w' way

theorem outcome_log (w : Workspace) : log.outcome w =
    ((Context.required w.context.filesDir).map fun dir => dir.entry "project_insights.json", w) := by
  rw [log, bind_of_ok (outcome_get w)]
  cases w.context.filesDir <;> rfl

theorem loses_forget (rooted : w.disk.current.isAbsolute) (stem : String) :
    w.disk.Loses (Aside w ((forget stem).outcome w).2) ((forget stem).outcome w).2.disk := by
  rw [forget, outcome_discard, outcome_attempt]
  rw [outcome_bind, outcome_log]
  cases dirs : w.context.filesDir with
  | none => exact .refl
  | some dir =>
    have last : (dir.entry "project_insights.json").name ≠ ".." := by
      simp [Path.entry, name]
    have loses := Insight.Log.loses_removeProject (p := dir.entry "project_insights.json") rooted (by simp [Path.entry])
      last (.text stem)
    exact loses.mono fun way aside => ⟨dir, dirs, aside⟩

theorem outcome_deleteStored (rooted : w.disk.current.isAbsolute) (file : String) :
    ∃ words w', (deleteStored file).outcome w = (.ok words, w') ∧ Rewritten w w' := by
  have rewritten := alike_delete rooted file
  rw [deleteStored, outcome_bind, outcome_attempt]
  dsimp only
  split <;> exact ⟨_, _, rfl, rewritten⟩

theorem Aside.before {d' : Disk} {w' : Workspace} (aside : Aside { w with disk := d' } w' way)
    (found : ∀ q way, d'.unfollowed q = .ok way → d.unfollowed q = .ok way) : Aside { w with disk := d } w' way := by
  obtain ⟨dir, files, place, there⟩ := aside
  exact ⟨dir, files, found _ _ place, there⟩

theorem loses_erase (rooted : w.disk.current.isAbsolute) (own : ∀ q, place = some q → q.name = fileOf id) :
    w.disk.Loses (fun way => (∃ p, Sought w (fileOf id) place p ∧ w.disk.unfollowed p = .ok way) ∨
      Aside w ((erase (fileOf id) place).outcome w).2 way) ((erase (fileOf id) place).outcome w).2.disk := by
  obtain ⟨words, _, stored, d, rfl, current, alike⟩ := outcome_deleteStored rooted (fileOf id)
  have found (q : Path) (way : List String) (place : d.unfollowed q = .ok way) : w.disk.unfollowed q = .ok way :=
    (unfollowed_alike alike current).symm.trans place
  have logged (w' : Workspace) (rooted : w'.disk.current.isAbsolute) (after : Workspace)
      (last : after = w' ∨ after = ((forget (ofString (fileOf id)).stem).outcome w').2) :
      w'.disk.Loses (Aside w' after) after.disk := by
    rcases last with rfl | rfl
    · exact .refl
    · exact loses_forget rooted _
  -- The log is left alone if the file cannot be looked for.
  have last : ((erase (fileOf id) place).outcome w).2 = ((deleteSaved (fileOf id) place).outcome { w with disk := d }).2 ∨
      ((erase (fileOf id) place).outcome w).2 = ((forget (ofString (fileOf id)).stem).outcome
        ((deleteSaved (fileOf id) place).outcome { w with disk := d }).2).2 := by
    rw [erase, bind_of_ok stored, outcome_bind]
    rcases (deleteSaved (fileOf id) place).outcome { w with disk := d } with ⟨r, w'⟩
    cases r with
    | error f => exact inl rfl
    | ok words => exact inr rfl
  refine ((loses_alike alike).mono fun _ => False.elim).trans ?_
  rcases deleteSaved_cases (fileOf id) place { w with disk := d } with same | ⟨p, d', sought, unlinked, after⟩
  · rw [same] at last
    refine (logged _ (current ▸ rooted) _ last).mono fun way aside => inr ?_
    exact aside.before (d := w.disk) found
  · rw [after] at last
    obtain ⟨named, notUp⟩ := sought.named own
    obtain ⟨_, -, frame, -⟩ := frame_unlink unlinked
    refine Loses.trans ((loses_unlink unlinked).mono fun way gone => inl ?_)
      ((logged _ ?_ _ last).mono fun way aside => inr ?_)
    · exact ⟨p, sought.alike alike current, found p way gone⟩
    · exact (frame.current.trans current) ▸ rooted
    · exact aside.before (d := w.disk) fun q way place =>
        found q way (unfollowed_of_unlink named notUp unlinked place)

/-- A file that a request is not held to the directories for: the client chose a path with a home mark, or no path
and an identifier with slashes. -/
def Escapes (r : Request) (w : Workspace) (way : List String) : Prop :=
  (∃ p, chosenPlace r = some p ∧ Services.hasHomeMark p ∧ w.disk.unfollowed p = .ok way) ∨
    (chosenPlace r = none ∧ '/' ∈ (r.text "id").toList ∧
      ∃ dir, searchDir w = .ok dir ∧ ∃ p ∈ placesOf dir (fileOf (r.text "id")), w.disk.unfollowed p = .ok way)

/-- Whatever the request and the disk are, with or without links: what stood somewhere before a deletion and is gone
afterwards stood in one of the directories that saved projects may be deleted from.  The only exceptions are a log
that cannot be read and gets another name, and a request that escapes. -/
theorem deletion_confined (rooted : w.disk.current.isAbsolute = true) (stood : (w.disk.root.at? way).isSome = true)
    (gone : ((delete r).outcome w).2.disk.root.at? way = none) :
    (∃ dirs, allowedDirs.outcome w = (.ok dirs, w) ∧ ∃ dir ∈ dirs, w.disk.Inside dir way) ∨
      Aside w ((delete r).outcome w).2 way ∨ Escapes r w way := by
  rcases delete_cases r w with same | ⟨dir, searched, asked, run⟩
  · rw [same] at gone
    simp [gone] at stood
  have allowed := allowedDirs_of_searched searched
  have checked (p : Path) (chosen : chosenPlace r = some p) :
      objection? w [dir, w.disk.resolved dir.parent] (fileOf (r.text "id")) p = .ok none := by
    rw [chosen] at asked
    exact (Prod.mk.inj asked).1
  have own (p : Path) (chosen : chosenPlace r = some p) : p.name = fileOf (r.text "id") :=
    (of_objection?_none (checked p chosen)).1
  rw [run] at gone ⊢
  rcases loses_erase rooted own way stood gone with ⟨p, sought, place⟩ | aside
  · obtain ⟨named, notUp⟩ := sought.named own
    rcases sought with chosen | ⟨none_, dir', searched', candidate⟩
    · obtain ⟨-, q, expanded, lies⟩ := of_objection?_none (checked p chosen)
      cases marked : Services.hasHomeMark p with
      | true => exact inr (inr (inl ⟨p, chosen, marked, place⟩))
      | false =>
          obtain rfl : p = q := by simpa [Services.expanded, marked] using expanded
          exact inl ⟨_, allowed, inside_of_liesIn named notUp lies place⟩
    · obtain rfl : dir = dir' := by simpa [searched] using searched'
      by_cases plain : '/' ∈ (r.text "id").toList
      · exact inr (inr (inr ⟨none_, plain, dir, searched, p, candidate, place⟩))
      · exact inl ⟨_, allowed, inside_of_plain plain candidate place⟩
  · exact inr (inl aside)

/-- A home directory with a saved project, a link to the directory that it is saved in, and a file elsewhere. -/
def savedAndElsewhere : Workspace :=
  let file : Node := .file ⟨.text "{}", default, 0⟩
  { (default : Workspace) with
    disk := ⟨.dir [
      ("User_config_files", .dir [("project_insights", .dir [("p.json", file)])]),
      ("proj", .dir [("x.json", file)]),
      ("short", .link "User_config_files/project_insights")], ⟨"/", []⟩, "user", 0⟩
    context := Context.ofHome ⟨"/", []⟩ }

def deletionOf (id : String) (place : Value) : Request :=
  ⟨.object [("id", .text id), ("save_path", place)], none⟩

/-- A saved project is deleted by a path through a link, and it was in one of the directories. -/
theorem deleted_through_link_confined :
    (((delete (deletionOf "p" (.text "/short/p.json"))).outcome savedAndElsewhere).2.disk.root.at?
      ["User_config_files", "project_insights", "p.json"]).isNone = true ∧
    ∃ dirs, allowedDirs.outcome savedAndElsewhere = (.ok dirs, savedAndElsewhere) ∧
      ∃ dir ∈ dirs, savedAndElsewhere.disk.Inside dir ["User_config_files", "project_insights", "p.json"] := by
  have gone : (((delete (deletionOf "p" (.text "/short/p.json"))).outcome savedAndElsewhere).2.disk.root.at?
      ["User_config_files", "project_insights", "p.json"]).isNone = true := by decide +kernel
  refine ⟨gone, ?_⟩
  rcases deletion_confined (r := deletionOf "p" (.text "/short/p.json")) (w := savedAndElsewhere) rfl rfl
    (Option.isNone_iff_eq_none.1 gone) with inside | ⟨dir, files, place, -⟩ | ⟨p, chosen, marked, -⟩ | ⟨none_, -⟩
  · exact inside
  · obtain rfl : Context.usualFilesDir ⟨"/", []⟩ = dir := Option.some.inj files
    have missing : (savedAndElsewhere.disk.unfollowed
        ((Context.usualFilesDir ⟨"/", []⟩).entry "project_insights.json")).isOk = false := by decide +kernel
    rw [place] at missing
    cases missing
  · have unmarked : ((chosenPlace (deletionOf "p" (.text "/short/p.json"))).map Services.hasHomeMark) = some false := by
      decide +kernel
    rw [chosen, Option.map_some, marked] at unmarked
    cases unmarked
  · have some_ : (chosenPlace (deletionOf "p" (.text "/short/p.json"))).isSome = true := by decide +kernel
    rw [none_] at some_
    cases some_

/-- An identifier that is an absolute path deletes a file that is in none of the directories. -/
theorem identifier_deletes_elsewhere :
    (((delete (deletionOf "/proj/x" .null)).outcome savedAndElsewhere).1.toOption.map fun v =>
      (v.getOrNull "status").textOrEmpty) = some "[SUCCESS] Deleted '/proj/x.json' from filesystem!" ∧
    (savedAndElsewhere.disk.root.at? ["proj", "x.json"]).isSome = true ∧
    (((delete (deletionOf "/proj/x" .null)).outcome savedAndElsewhere).2.disk.root.at? ["proj", "x.json"]).isSome = false ∧
    ((allowedDirs.outcome savedAndElsewhere).1.toOption.map fun dirs =>
      dirs.all fun dir => !decide (savedAndElsewhere.disk.Inside dir ["proj", "x.json"])) = some true := by
  decide +kernel

end Api.Projects

end Folio
