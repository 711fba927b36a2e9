/-
# Proofs.Contribution.Remembered -- skills that are taken from memory

Skills are remembered by the list of files alone.  So a question about files gets the answer that the first question
about the same list got (`Holds.recalled_of_answers`), and a history of questions gets the answers that each would get
alone exactly when equal lists have equal answers (`alone_iff_steady`).  Finding skills neither asks for what is
remembered nor changes it (`heedless_skillsOfFiles`), which is why a look-up splits into the two.
-/
import Mathlib.Data.List.Induction
import Folio.Contribution.Skills
import Folio.Proofs.Action

namespace Folio

open List Option

def Workspace.recalling (w : Workspace) (known : List (List String × List String)) : Workspace :=
  { w with skills := known }

namespace Action

variable {α β : Type}

theorem bind_moved {m : Workspace → Workspace} {a : Action α} {next : α → Action β} {w : Workspace}
    (first : a.outcome (m w) = ((a.outcome w).1, m (a.outcome w).2)) (rest : ∀ x w', a.outcome w = (.ok x, w') →
      (next x).outcome (m w') = (((next x).outcome w').1, m ((next x).outcome w').2)) :
    (a >>= next).outcome (m w) = (((a >>= next).outcome w).1, m ((a >>= next).outcome w).2) := by
  rw [outcome_bind, outcome_bind, first]
  rcases own : a.outcome w with ⟨r, w'⟩
  cases r with
  | error f => rfl
  | ok x => exact rest x w' own

/-- An action that neither asks for the skills in memory nor changes them. -/
def Heedless (a : Action α) : Prop :=
  ∀ w known, a.outcome (w.recalling known) = ((a.outcome w).1, (a.outcome w).2.recalling known)

namespace Heedless

variable {a : Action α} {next : α → Action β}

theorem skills (heedless : a.Heedless) (w : Workspace) : (a.outcome w).2.skills = w.skills := by
  have same := heedless w w.skills
  exact congrArg (fun x => x.2.skills) same

theorem pure (x : α) : (Pure.pure x : Action α).Heedless := fun _ _ => rfl

theorem throw (f : Fault) : (MonadExcept.throw f : Action α).Heedless := fun _ _ => rfl

theorem ofExcept (r : Except Fault α) : (ofExcept r).Heedless := fun _ _ => rfl

theorem ask (question : Disk → Except Fault α) : (ask question).Heedless := fun _ _ => rfl

theorem disk : disk.Heedless := fun _ _ => rfl

theorem bind (first : a.Heedless) (rest : ∀ x, (next x).Heedless) : (a >>= next).Heedless :=
  fun w known => bind_moved (m := (·.recalling known)) (first w known) fun x w' _ => rest x w' known

theorem get {next : Workspace → Action β} (same : ∀ w known, next (w.recalling known) = next w)
    (rest : ∀ w, (next w).Heedless) : ((MonadState.get : Action Workspace) >>= next).Heedless := by
  intro w known
  rw [bind_of_ok (outcome_get _), same w known]
  exact rest w w known

theorem change (step : Disk → Except Fault Disk) : (change step).Heedless := by
  intro w known
  have same : (w.recalling known).disk = w.disk := rfl
  rw [outcome_change, outcome_change, same]
  cases step w.disk with
  | error f | ok d => rfl

theorem attempt (heedless : a.Heedless) : a.attempt.Heedless := by
  intro w known
  rw [outcome_attempt, outcome_attempt, heedless w known]

theorem discard (heedless : a.Heedless) : (Functor.discard a).Heedless := by
  intro w known
  rw [outcome_discard, outcome_discard, heedless w known]

theorem loop {f : α → Action Unit} (each : ∀ x, (f x).Heedless) (xs : List α) : (forIn xs PUnit.unit fun x _ => do
      f x
      Pure.pure (ForInStep.yield PUnit.unit) : Action PUnit).Heedless := by
  induction xs with
  | nil => exact pure _
  | cons x xs ih =>
    rw [forIn_cons]
    refine bind (bind (each x) fun _ => pure _) fun step => ?_
    cases step with
    | done _ => exact pure _
    | yield _ => exact ih

theorem copy (source target : Path) : (copy source target).Heedless := by
  refine bind disk fun d => ?_
  dsimp only
  split
  · exact change _
  · exact throw _

end Heedless

end Action

namespace Contribution

open Action (Heedless)

variable {w : Workspace} {root : Path} {files : List String} {skills : List String}

/-! ## Finding skills -/

theorem heedless_inFreshDir {α : Type} {work : Path → Action α} (each : ∀ dir, (work dir).Heedless) :
    (inFreshDir work).Heedless := by
  refine .get (fun _ _ => rfl) fun w => .bind .disk fun d => .bind (.change _) fun _ => ?_
  exact .bind (.attempt (each _)) fun done => .bind (.change _) fun _ => .ofExcept done

theorem heedless_copyAcross (root dir : Path) (file : String) : (copyAcross root dir file).Heedless := by
  refine .bind (.ask _) fun there => ?_
  split
  · exact .bind (.change _) fun _ => .discard (.attempt (.copy _ _))
  · exact .pure _

theorem heedless_skillsOfFiles (root : Path) (files : List String) : (skillsOfFiles root files).Heedless := by
  refine heedless_inFreshDir fun dir => .bind (.loop (heedless_copyAcross root dir) files) fun _ => ?_
  refine .bind .disk fun d => ?_
  cases Project.skillsOf d dir with
  | error f | ok skills => exact .pure _

/-! ## Looking skills up -/

theorem outcome_lookUp (w : Workspace) (root : Path) (nonempty : files ≠ []) : (lookUp root files).outcome w =
    match w.skills.lookup files with
    | some skills => (.ok skills, w)
    | none =>
      let found := (skillsOfFiles root files).outcome w
      (found.1, found.2.recalling (w.skills ++ (found.1.toOption.map (files, ·)).toList)) := by
  rw [lookUp, if_neg (by simpa using nonempty), Action.bind_of_ok (Action.outcome_get w)]
  cases w.skills.lookup files with
  | some skills => rfl
  | none =>
    rw [← (heedless_skillsOfFiles root files).skills w]
    rw [Action.outcome_bind]
    rcases (skillsOfFiles root files).outcome w with ⟨r, w'⟩
    cases r with
    | error f => simp [Except.toOption, Workspace.recalling]
    | ok skills => rfl

/-- What a look-up answers when nothing is in memory. -/
def alone (w : Workspace) (root : Path) (files : List String) : Except Fault (List String) :=
  ((lookUp root files).outcome (w.recalling [])).1

theorem alone_eq (w : Workspace) (root : Path) (nonempty : files ≠ []) :
    alone w root files = ((skillsOfFiles root files).outcome w).1 := by
  have found := heedless_skillsOfFiles root files w []
  rw [alone, outcome_lookUp _ root nonempty, found]
  rfl

theorem given_eq (w : Workspace) (root : Path) (nonempty : files ≠ []) :
    ((lookUp root files).outcome w).1 = ((w.skills.lookup files).map Except.ok).getD (alone w root files) := by
  rw [outcome_lookUp w root nonempty, alone_eq w root nonempty]
  cases w.skills.lookup files <;> rfl

theorem lookup_after (w : Workspace) (root : Path) (files other : List String) (nonempty : other ≠ []) :
    ((lookUp root files).outcome w).2.skills.lookup other =
      (w.skills.lookup other).or (if files = other then (alone w root files).toOption else none) := by
  by_cases empty : files = []
  · subst empty
    rw [if_neg (Ne.symm nonempty), or_none]
    rfl
  · rw [outcome_lookUp w root empty, alone_eq w root empty]
    generalize (skillsOfFiles root files).outcome w = found
    by_cases same : files = other
    · subst same
      cases memory : w.skills.lookup files with
      | some skills => simp [memory]
      | none => cases shown : found.1 <;> simp [Workspace.recalling, lookup_append, memory, shown, Except.toOption]
    · have differs : (other == files) = false := by simpa using Ne.symm same
      rw [if_neg same, or_none]
      cases w.skills.lookup files with
      | some skills => rfl
      | none => cases shown : found.1 <;>
          simp [Workspace.recalling, lookup_append, differs, shown, Except.toOption]

/-! ## A history of questions -/

/-- A question about some files of a project, or the disk becoming another. -/
inductive Event where
  | asked (root : Path) (files : List String)
  | changed (d : Disk)

/-- A question that was answered: the files it was about, what it was given, and what it would have been given
at the same moment with nothing in memory. -/
structure Answer where
  files : List String
  given : Except Fault (List String)
  alone : Except Fault (List String)

def Event.next (w : Workspace) : Event → Workspace
  | .asked root files => ((lookUp root files).outcome w).2
  | .changed d => { w with disk := d }

def Event.answer (w : Workspace) : Event → List Answer
  | .asked root files => [⟨files, ((lookUp root files).outcome w).1, alone w root files⟩]
  | .changed _ => []

def after (events : List Event) (w : Workspace) : Workspace := events.foldl Event.next w

def answers : List Event → Workspace → List Answer
  | [], _ => []
  | e :: events, w => e.answer w ++ answers events (e.next w)

/-- The skills that the first question about a list found, of those that found any out. -/
def firstFound (past : List Answer) (files : List String) : Option (List String) :=
  past.findSome? fun a => if a.files = files then a.alone.toOption else none

theorem firstFound_append (past more : List Answer) (files : List String) :
    firstFound (past ++ more) files = (firstFound past files).or (firstFound more files) :=
  findSome?_append

theorem firstFound_singleton (a : Answer) (files : List String) :
    firstFound [a] files = if a.files = files then a.alone.toOption else none := by
  cases found : (if a.files = files then a.alone.toOption else none) with
  | none => rw [firstFound, findSome?_cons, found]; rfl
  | some skills => rw [firstFound, findSome?_cons, found]

variable {past : List Answer}

theorem found_of_firstFound (found : firstFound past files = some skills) :
    ∃ a ∈ past, a.files = files ∧ a.alone = .ok skills := by
  obtain ⟨a, member, here⟩ := exists_of_findSome?_eq_some found
  split at here
  · case isTrue same =>
      refine ⟨a, member, same, ?_⟩
      cases alone : a.alone with
      | error f => rw [alone] at here; cases here
      | ok s => rw [alone] at here; cases here; rfl
  · cases here

/-- What a question is given after these: the skills that were found first, or else what it finds itself. -/
def recalled (past : List Answer) (a : Answer) : Except Fault (List String) :=
  ((firstFound past a.files).map Except.ok).getD a.alone

/-- Memory holds what the first questions found, and nothing is ever shown by no files. -/
structure Holds (w : Workspace) (past : List Answer) : Prop where
  memory : ∀ files, files ≠ [] → w.skills.lookup files = firstFound past files
  nothing : ∀ a ∈ past, a.files = [] → a.alone = .ok []

theorem Holds.start (w : Workspace) : Holds (w.recalling []) [] where
  memory _ _ := rfl
  nothing _ member := nomatch member

theorem Holds.given (holds : Holds w past) (root : Path) (files : List String) : ((lookUp root files).outcome w).1 =
      recalled past ⟨files, ((lookUp root files).outcome w).1, alone w root files⟩ := by
  by_cases empty : files = []
  · subst empty
    cases found : firstFound past [] with
    | none => simp only [recalled, found]; rfl
    | some skills =>
      obtain ⟨a, member, same, shown⟩ := found_of_firstFound found
      have blank : skills = [] := by
        have := holds.nothing a member same
        rw [shown] at this
        cases this
        rfl
      simp only [recalled, found, blank]
      rfl
  · rw [given_eq w root empty, holds.memory files empty]
    rfl

theorem Holds.next (holds : Holds w past) (e : Event) : Holds (e.next w) (past ++ e.answer w) := by
  cases e with
  | changed d =>
    rw [Event.answer, append_nil]
    exact ⟨holds.memory, holds.nothing⟩
  | asked root files =>
    constructor
    · intro other nonempty
      rw [Event.next, Event.answer, firstFound_append, firstFound_singleton, lookup_after w root files other nonempty,
        holds.memory other nonempty]
    · intro a member empty
      rcases mem_append.mp member with old | new
      · exact holds.nothing a old empty
      · rw [Event.answer, mem_singleton] at new
        subst new
        subst empty
        rfl

theorem Holds.after (holds : Holds w past) (events : List Event) : Holds (after events w) (past ++ answers events w) := by
  induction events generalizing w past with
  | nil =>
    rw [answers, append_nil]
    exact holds
  | cons e events ih =>
    rw [answers, ← append_assoc]
    exact ih (holds.next e)

/-- Every question is given what the first one about the same files found. -/
theorem Holds.recalled_of_answers (holds : Holds w past) (events : List Event)
    {before later : List Answer} {a : Answer} (split : answers events w = before ++ a :: later) :
    a.given = recalled (past ++ before) a := by
  induction events generalizing w past before with
  | nil => simp [answers] at split
  | cons e events ih =>
    cases e with
    | changed d => exact ih (holds.next (.changed d)) split |>.trans (by rw [Event.answer, append_nil])
    | asked root files =>
      cases before with
      | nil =>
        obtain ⟨rfl, -⟩ := cons_eq_cons.mp split
        rw [append_nil]
        exact holds.given root files
      | cons b before =>
        obtain ⟨rfl, rest⟩ := cons_eq_cons.mp split
        rw [ih (holds.next (.asked root files)) rest, Event.answer, append_assoc, singleton_append]

/-! ## Independence -/

/-- Whenever a question found skills, a later one about the same list finds the same. -/
def Steady (asked : List Answer) : Prop :=
  asked.Pairwise fun b a => b.files = a.files → b.alone.isOk → a.alone = b.alone

/-- Questions are given what each finds alone exactly when equal lists find equal skills. -/
theorem alone_iff_steady {asked : List Answer}
    (given : ∀ before a later, asked = before ++ a :: later → a.given = recalled before a) :
    (∀ a ∈ asked, a.given = a.alone) ↔ Steady asked := by
  induction asked using reverseRecOn with
  | nil => simp [Steady]
  | append_singleton past a ih =>
    have earlier := ih fun before b later split => given before b (later ++ [a]) (by simp [split])
    have last := given past a [] rfl
    rw [Steady, pairwise_append, ← Steady, ← earlier]
    simp only [mem_append, mem_singleton, pairwise_singleton, true_and]
    constructor
    · intro all
      have before := fun b member => all b (.inl member)
      refine ⟨before, ?_⟩
      rintro b member c rfl same found
      obtain ⟨skills, shown⟩ : ∃ skills, b.alone = .ok skills := by
        cases shown : b.alone with
        | error f => rw [shown] at found; cases found
        | ok skills => exact ⟨skills, rfl⟩
      -- What `b` found is what was found first, since `b` itself was given what it found.
      have first : firstFound past b.files = some skills := by
        obtain ⟨front, back, rfl⟩ := append_of_mem member
        have own := (given front b (back ++ [c]) (by simp)).symm.trans (before b member)
        rw [firstFound_append]
        cases found : firstFound front b.files with
        | some s =>
          simp only [recalled, found, shown] at own
          cases own
          rfl
        | none =>
          rw [← singleton_append, firstFound_append, firstFound_singleton, if_pos rfl, shown]
          rfl
      rw [← all c (.inr rfl), last, recalled, ← same, first, shown]
      rfl
    · rintro ⟨before, steady⟩ b (member | rfl)
      · exact before b member
      · cases found : firstFound past b.files with
        | none => rw [last, recalled, found]; rfl
        | some skills =>
          obtain ⟨c, member, same, shown⟩ := found_of_firstFound found
          rw [last, recalled, found, steady c member b rfl same (by rw [shown]; rfl), shown]
          rfl

/-! ## The skills of the people of a project -/

/-- The same workspace with other skills in memory before its own. -/
def remembering (known : List (List String × List String)) (w : Workspace) : Workspace :=
  w.recalling (known ++ w.skills)

section

variable (root) (known : List (List String × List String))

theorem lookUp_remembering (files : List String) (foreign : files ≠ [] → known.lookup files = none) (w : Workspace) :
    (lookUp root files).outcome (remembering known w) =
      (((lookUp root files).outcome w).1, remembering known ((lookUp root files).outcome w).2) := by
  by_cases empty : files = []
  · subst empty
    rfl
  · have memory : (remembering known w).skills.lookup files = w.skills.lookup files := by
      show lookup files (known ++ w.skills) = _
      rw [lookup_append, foreign empty, none_or]
    rw [outcome_lookUp _ root empty, outcome_lookUp w root empty, memory]
    cases w.skills.lookup files with
    | some skills => rfl
    | none =>
      rw [remembering, heedless_skillsOfFiles root files w]
      simp [remembering, Workspace.recalling]

theorem listSkills_remembering (people : Buckets)
    (foreign : ∀ p ∈ people, p.2.files ≠ [] → known.lookup p.2.files = none) (w : Workspace) :
    (listSkills root people).outcome (remembering known w) =
      (((listSkills root people).outcome w).1, remembering known ((listSkills root people).outcome w).2) := by
  induction people generalizing w with
  | nil => rfl
  | cons p rest ih =>
    obtain ⟨own, others⟩ := forall_mem_cons.1 foreign
    exact Action.bind_moved (lookUp_remembering root known p.2.files own w) fun skills w' _ =>
      Action.bind_moved (ih others w') fun _ _ _ => rfl

theorem skillsByPerson_recalling (history : Option Git.History) (w : Workspace)
    (foreign : ∀ found, find w.disk history root = .ok found → ∀ p ∈ found.buckets, p.2.files ≠ [] →
      known.lookup p.2.files = none) : ((skillsByPerson history root).outcome (w.recalling known)).1 =
      ((skillsByPerson history root).outcome (w.recalling [])).1 := by
  have same : remembering known (w.recalling []) = w.recalling known := congrArg w.recalling (append_nil known)
  have moved : (skillsByPerson history root).outcome (remembering known (w.recalling [])) = (_, _) :=
    Action.bind_moved rfl fun d w₁ asked => Action.bind_moved rfl fun found w₂ told =>
      Action.bind_moved rfl fun skills w₃ _ => Action.bind_moved (listSkills_remembering root known found.buckets
        (foreign found (by cases asked; exact congrArg Prod.fst told)) w₃) fun _ _ _ => rfl
  rw [← same, moved]
  rfl

end

/-- What questions about some lists of files leave. -/
def LeftByAsking (root : Path) (w w' : Workspace) : Prop :=
  ∃ lists : List (List String), w' = after (lists.map (.asked root)) w

theorem after_listSkills (root : Path) (people : Buckets) (w : Workspace) :
    LeftByAsking root w ((listSkills root people).outcome w).2 := by
  induction people generalizing w with
  | nil => exact ⟨[], rfl⟩
  | cons p rest ih =>
    refine Action.state_bind (P := LeftByAsking root w) (fun _ _ => ⟨[p.2.files], rfl⟩) fun skills _ => ?_
    obtain ⟨lists, left⟩ := ih ((lookUp root p.2.files).outcome w).2
    have further : LeftByAsking root w _ := ⟨p.2.files :: lists, left⟩
    exact Action.state_bind (P := LeftByAsking root w) (fun _ _ => further) fun _ _ => further

theorem after_skillsByPerson (history : Option Git.History) (root : Path) (w : Workspace) :
    LeftByAsking root w ((skillsByPerson history root).outcome w).2 := by
  have nothing : LeftByAsking root w w := ⟨[], rfl⟩
  refine Action.state_bind (P := LeftByAsking root w) (fun _ _ => nothing) fun d _ =>
    Action.state_bind (P := LeftByAsking root w) (fun _ _ => nothing) fun found _ =>
      Action.state_bind (P := LeftByAsking root w) (fun _ _ => nothing) fun skills _ => ?_
  have left := after_listSkills root found.buckets w
  exact Action.state_bind (P := LeftByAsking root w) (fun _ _ => left) fun _ _ => left

/-- Skills are remembered by the list of files alone.  Along every history of questions and changes of the disk, a
question is given what the first question about the same list found, whatever project that was about and whatever
the files hold by now.  So all are given what each finds alone exactly when equal lists always find equal skills.
The analysis of a project leaves what such a history leaves, and gives what it gives with nothing in memory unless
a list of one of its people was asked for before. -/
theorem skills_given_as_first_found (events : List Event) (w : Workspace) :
    (∀ before a later, answers events (w.recalling []) = before ++ a :: later → a.given = recalled before a) ∧
    ((∀ a ∈ answers events (w.recalling []), a.given = a.alone) ↔ Steady (answers events (w.recalling []))) ∧
    (∀ history root, ∃ lists : List (List String),
      ((skillsByPerson history root).outcome (after events (w.recalling []))).2 =
        after (events ++ lists.map (.asked root)) (w.recalling [])) ∧
    ∀ history root,
      (∀ found, find (after events (w.recalling [])).disk history root = .ok found → ∀ p ∈ found.buckets,
        p.2.files ≠ [] → firstFound (answers events (w.recalling [])) p.2.files = none) →
      ((skillsByPerson history root).outcome (after events (w.recalling []))).1 =
        ((skillsByPerson history root).outcome ((after events (w.recalling [])).recalling [])).1 := by
  have start := Holds.start w
  have given : ∀ before a later, answers events (w.recalling []) = before ++ a :: later → a.given = recalled before a :=
    fun before a later split => start.recalled_of_answers events split
  have memory := (start.after events).memory
  refine ⟨given, alone_iff_steady given, ?_, ?_⟩
  · intro history root
    obtain ⟨lists, left⟩ := after_skillsByPerson history root (after events (w.recalling []))
    refine ⟨lists, left.trans ?_⟩
    rw [after, after, after, List.foldl_append]
  · intro history root foreign
    refine skillsByPerson_recalling root _ history (after events (w.recalling [])) ?_
    intro found here p member nonempty
    exact (memory p.2.files nonempty).trans (foreign found here p member nonempty)

/-- Two projects with the same file names: one requires a package for data analysis, the other one for tests. -/
def twoProjects : Workspace :=
  let requiring (package : String) : Node := .dir [("requirements.txt", .file ⟨.text package, default, 0⟩)]
  { (default : Workspace) with
    temp := ⟨"/", ["t"]⟩
    disk := ⟨.dir [("a", requiring "pandas"), ("b", requiring "pytest"), ("t", .dir [])], ⟨"/", []⟩, "user", 0⟩ }

def askBoth : List Event := [.asked ⟨"/", ["a"]⟩ ["requirements.txt"], .asked ⟨"/", ["b"]⟩ ["requirements.txt"]]

def pair : Git.History :=
  { commits := [⟨some ⟨some "Ann", some "ann@x"⟩, ["requirements.txt"]⟩, ⟨some ⟨some "Bob", some "bob@x"⟩, []⟩],
    tracked := ["requirements.txt"], origin := "", openFails := false, listFails := false, commitsFail := false,
    closeFails := false }

/-- The second project is given the skills of the first, and so is its contributor. -/
theorem second_project_given_first_skills :
    (answers askBoth (twoProjects.recalling [])).map (fun a => (a.given.toOption, a.alone.toOption)) =
      [(some ["Data Analysis"], some ["Data Analysis"]), (some ["Data Analysis"], some ["Testing"])] ∧
    (¬ ∀ a ∈ answers askBoth (twoProjects.recalling []), a.given = a.alone) ∧
    ((skillsByPerson (some pair) ⟨"/", ["b"]⟩).outcome
      ((skillsByPerson (some pair) ⟨"/", ["a"]⟩).outcome (twoProjects.recalling [])).2).1.toOption.map
        (Json.render .line) = some ("\x7b\"project_skills\": [\"Testing\"], \"contributors\": " ++
          "\x7b\"<unattributed>\": \x7b\"file_count\": 0, \"skills\": []\x7d, " ++
          "\"Ann\": \x7b\"file_count\": 1, \"skills\": [\"Data Analysis\"]\x7d\x7d\x7d") := by
  refine ⟨by decide +kernel, fun all => ?_, by decide +kernel⟩
  have same := fun a (member : a ∈ answers askBoth (twoProjects.recalling [])) =>
    congrArg Except.toOption (all a member)
  revert same
  decide +kernel

/-- After a question about a list that nobody of the second project has, its analysis is as it would be. -/
theorem second_project_after_other_list :
    firstFound (answers [.asked ⟨"/", ["a"]⟩ ["setup.cfg"]] (twoProjects.recalling [])) ["setup.cfg"] = some [] ∧
    ((skillsByPerson (some pair) ⟨"/", ["b"]⟩).outcome
      (after [.asked ⟨"/", ["a"]⟩ ["setup.cfg"]] (twoProjects.recalling []))).1 =
    ((skillsByPerson (some pair) ⟨"/", ["b"]⟩).outcome
      ((after [.asked ⟨"/", ["a"]⟩ ["setup.cfg"]] (twoProjects.recalling [])).recalling [])).1 := by
  refine ⟨by decide +kernel, (skills_given_as_first_found _ twoProjects).2.2.2 _ _ fun found here => ?_⟩
  have all : ((find (after [.asked ⟨"/", ["a"]⟩ ["setup.cfg"]] (twoProjects.recalling [])).disk (some pair)
      ⟨"/", ["b"]⟩).toOption.map fun found => found.buckets.all fun p =>
        (firstFound (answers [.asked ⟨"/", ["a"]⟩ ["setup.cfg"]] (twoProjects.recalling [])) p.2.files).isNone) =
      some true := by decide +kernel
  rw [here] at all
  intro p member _
  exact Option.isNone_iff_eq_none.mp (List.all_eq_true.mp (Option.some.inj all) p member)

end Contribution

end Folio
