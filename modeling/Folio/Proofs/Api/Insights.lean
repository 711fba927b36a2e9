/-
# Proofs.Api.Insights -- projects and skills are chosen alike

A client may ask for the projects with a skill since a day, or for the skills of these projects.  The first request
looks at the skills of every project, the second only at those of recent ones.  So they choose alike
(`skills_follow_projects`) unless an older project lists a skill that is no text, which stops the first one only.
-/
import Folio.Api.Insights
import Folio.Proofs.Action
import Folio.Proofs.Value

namespace Folio.Api.Insights

open Action Insight
open Projects (log)

variable {i : Insight} {r : Request} {skill : Option String} {start : Option Moment} {w : Workspace}

/-! ## The two tests -/

def Dated (i : Insight) : Prop := ∃ t, dateTime? i.analyzedAt = .ok t

theorem isSince_of_dated (dated : Dated i) (start : Option Moment) : ∃ b, isSince start i = .ok b := by
  obtain ⟨t, read⟩ := dated
  cases start with
  | none => exact ⟨true, rfl⟩
  | some s =>
    rw [isSince, read]
    cases t with
    | none => exact ⟨true, rfl⟩
    | some t => exact ⟨decide (s.instant ≤ t.instant), rfl⟩

def asked (skill : Option String) : Option String := skill.bind fun s => if s == "" then none else some s

theorem meets_asked (skill : Option String) (names : List Value) : meets (asked skill) names = meets skill names := by
  cases skill with
  | none => rfl
  | some s => by_cases empty : s = "" <;> simp [asked, meets, empty]

theorem isWanted_of_passes (dated : Dated i) {b : Bool} (passed : passes none skill start i = .ok b) :
    isWanted (asked skill) start i = .ok b := by
  obtain ⟨recent, known⟩ := isSince_of_dated dated start
  obtain ⟨t, read⟩ := dated
  have first : passes none skill start i = (do
      if !(← meets skill i.skills) then return false
      isSince start i) := rfl
  rw [first] at passed
  obtain ⟨met, tested, passed⟩ := ok_of_bind passed
  have tests : isWanted (asked skill) start i = (do
      if !(← isSince start i) then return false
      meets (asked skill) i.skills) := by
    rw [isWanted, read]
    rfl
  rw [tests, known, meets_asked, tested]
  rw [known] at passed
  cases met <;> cases recent <;> exact passed

theorem meets_of_texts {names : List Value} (texts : ∀ v ∈ names, ∃ s, v = .text s) (skill : Option String) :
    ∃ b, meets skill names = .ok b := by
  have any (wanted : String) : ∃ b, namesAny wanted names = .ok b := by
    induction names with
    | nil => exact ⟨false, rfl⟩
    | cons v names ih =>
      obtain ⟨⟨s, rfl⟩, rest⟩ := List.forall_mem_cons.1 texts
      obtain ⟨b, later⟩ := ih rest
      by_cases here : Text.lower s == wanted
      · exact ⟨true, by simp [namesAny, Value.asText, bind, Except.bind, here, pure, Except.pure]⟩
      · exact ⟨b, by simp [namesAny, Value.asText, bind, Except.bind, here, later]⟩
  cases skill with
  | none => exact ⟨true, rfl⟩
  | some s =>
    rw [meets]
    split
    · exact ⟨true, rfl⟩
    · exact any _

theorem passes_of_texts (dated : Dated i) (texts : ∀ v ∈ i.skills, ∃ s, v = .text s) (skill : Option String)
    (start : Option Moment) : ∃ b, passes none skill start i = .ok b := by
  obtain ⟨met, tested⟩ := meets_of_texts texts skill
  obtain ⟨recent, known⟩ := isSince_of_dated dated start
  refine ⟨met && recent, ?_⟩
  show (do if !(← meets skill i.skills) then return false else isSince start i) = _
  rw [tested, known]
  cases met <;> rfl

/-! ## The two choices -/

def chosen (skill : Option String) (start : Option Moment) (is : List Insight) : Except Fault (List Insight) :=
  if start.isNone && (asked skill).isNone then .ok is else is.filterM (isWanted (asked skill) start)

theorem chosen_of_filtered {is found : List Insight} (dated : ∀ i ∈ is, Dated i)
    (run : filtered none skill start is = .ok found) : chosen skill start is = .ok found := by
  let keep (i : Insight) : Bool := (passes none skill start i).toOption == some true
  have decided : ∀ i ∈ is, passes none skill start i = .ok (keep i) := by
    intro i member
    obtain ⟨b, passed⟩ := ok_of_filterM run i member
    cases b <;> simp [keep, passed, Except.toOption]
  obtain rfl : is.filter keep = found := Except.ok.inj ((filterM_of_ok decided).symm.trans run)
  unfold chosen
  split
  · -- Nothing is asked for, and every project passes.
    rename_i all
    obtain ⟨rfl, nothing⟩ : start = none ∧ asked skill = none := by simpa using all
    refine congrArg Except.ok (List.filter_eq_self.2 fun i member => ?_).symm
    have passed := isWanted_of_passes (dated i member) (decided i member)
    obtain ⟨t, read⟩ := dated i member
    rw [nothing, isWanted, read] at passed
    exact (Except.ok.inj passed).symm
  · exact filterM_of_ok fun i member => isWanted_of_passes (dated i member) (decided i member)

/-! ## The two requests -/

def listing : Action (List Insight) := do Log.list (← log)

theorem requests_cases (language : r.text? "language" = none) (w : Workspace) :
    (∃ f w', (projects r).outcome w = (.error f, w') ∧ (skills r).outcome w = (.error f, w')) ∨
    ∃ start is w', listing.outcome w = (.ok is, w') ∧ (projects r).outcome w =
        ((filtered none (r.text? "skill") start is).map fun found => .list (found.map (·.toValue)), w') ∧
      (skills r).outcome w =
        ((chosen (r.text? "skill") start is).map fun found => .list (found.map (·.skillEntry)), w') := by
  have told : skills r = (do
      let file ← log
      let start ← since r
      let all ← Log.list file
      let found ← chosen (r.text? "skill") start all
      return .list (found.map (·.skillEntry))) := rfl
  rw [projects, told, listing, outcome_bind, outcome_bind, outcome_bind, language]
  rcases log.outcome w with ⟨_ | file, w₁⟩
  · exact .inl ⟨_, _, rfl, rfl⟩
  dsimp only
  rw [outcome_bind, outcome_bind, outcome_lift]
  rcases since r with _ | start
  · exact .inl ⟨_, _, rfl, rfl⟩
  dsimp only
  rw [outcome_bind, outcome_bind]
  rcases (Log.list file).outcome w₁ with ⟨_ | is, w₂⟩
  · exact .inl ⟨_, _, rfl, rfl⟩
  refine .inr ⟨start, is, w₂, rfl, ?_, ?_⟩
  · dsimp only
    cases filtered none (r.text? "skill") start is <;> rfl
  · dsimp only
    cases chosen (r.text? "skill") start is <;> rfl

def brief (v : Value) : Value := .object [
  ("project_name", v.getOrNull "project_name"),
  ("skills", v.getOrNull "skills"),
  ("analyzed_at", v.getOrNull "analyzed_at"),
  ("skill_count", .nat (v.getOrNull "skills").itemsOrEmpty.length)]

def briefs (v : Value) : Value := .list (v.itemsOrEmpty.map brief)

/-- The skills that are told are those of the projects that are told, in their order.  That holds where all skills are
texts, also of the fault where both requests fail, and else wherever the request for the projects succeeds. -/
theorem skills_follow_projects (r : Request) (w : Workspace) (language : r.text? "language" = none)
    (dated : ∀ is w', listing.outcome w = (.ok is, w') → ∀ i ∈ is, Dated i) :
    (∀ v w', (projects r).outcome w = (.ok v, w') → (skills r).outcome w = (.ok (briefs v), w')) ∧
    ((∀ is w', listing.outcome w = (.ok is, w') → ∀ i ∈ is, ∀ v ∈ i.skills, ∃ s, v = .text s) →
      (skills r).outcome w = (((projects r).outcome w).1.map briefs, ((projects r).outcome w).2)) := by
  rcases requests_cases language w with ⟨f, w', first, second⟩ | ⟨start, is, w', listed, first, second⟩
  · rw [first, second]
    exact ⟨fun v w₁ run => (nomatch (Prod.mk.inj run).1), fun _ => rfl⟩
  have returns {found : List Insight} (run : filtered none (r.text? "skill") start is = .ok found) :
      (skills r).outcome w = (.ok (briefs (.list (found.map (·.toValue)))), w') := by
    rw [second, chosen_of_filtered (dated is w' listed) run, briefs, Value.itemsOrEmpty, Value.items?, Option.getD_some,
      List.map_map]
    rfl
  rw [first]
  constructor
  · intro v w₁ run
    cases filter : filtered none (r.text? "skill") start is with
    | error f =>
      rw [filter] at run
      cases run
    | ok found =>
      rw [filter] at run
      cases run
      exact returns filter
  · intro texts
    let keep (i : Insight) : Bool := (passes none (r.text? "skill") start i).toOption == some true
    have filter : filtered none (r.text? "skill") start is = .ok (is.filter keep) := filterM_of_ok fun i member => by
      obtain ⟨b, passed⟩ :=
        passes_of_texts (dated is w' listed i member) (texts is w' listed i member) (r.text? "skill") start
      rw [passed]
      cases b <;> simp [keep, passed, Except.toOption]
    rw [filter]
    exact returns filter

/-- A log with one project of the year 2020 that lists one skill. -/
def logWith (skill : Value) : Workspace :=
  { (default : Workspace) with
    disk := ⟨.dir [("User_config_files", .dir [("project_insights.json", .file ⟨.document .pretty (.list [.object [
        ("project_name", .text "p"), ("analyzed_at", .text "2020-01-01"), ("skills", .list [skill])]]), default, 0⟩)])],
      ⟨"/", []⟩, "user", 0⟩
    context := .ofHome ⟨"/", []⟩ }

def leanSince (day : String) : Request := { args := .object [("skill", .text "lean"), ("since_str", .text day)] }

/-- A number among the skills of an older project stops the one request and not the other. -/
theorem older_project_stops_one :
    (listing.outcome (logWith (.int 5))).1.toOption.map (·.all fun i => (dateTime? i.analyzedAt).isOk) = some true ∧
      ((projects (leanSince "2020-06-01")).outcome (logWith (.int 5))).1.isOk = false ∧
      ((skills (leanSince "2020-06-01")).outcome (logWith (.int 5))).1.toOption.map (Json.render .line) = some "[]" := by
  decide +kernel

/-- A project with the skill is told, and so are its skills. -/
theorem lean_project_told :
    ((projects (leanSince "2019-01-01")).outcome (logWith (.text "Lean"))).1.toOption.map (·.itemsOrEmpty.length) =
      some 1 ∧
    (skills (leanSince "2019-01-01")).outcome (logWith (.text "Lean")) =
      (((projects (leanSince "2019-01-01")).outcome (logWith (.text "Lean"))).1.map briefs,
        ((projects (leanSince "2019-01-01")).outcome (logWith (.text "Lean"))).2) := by
  have read : (listing.outcome (logWith (.text "Lean"))).1.toOption.all (·.all fun i =>
      (dateTime? i.analyzedAt).isOk && i.skills.all (·.text?.isSome)) = true := by decide +kernel
  have each {is : List Insight} {w' : Workspace} (listed : listing.outcome (logWith (.text "Lean")) = (.ok is, w'))
      {i : Insight} (member : i ∈ is) : Dated i ∧ ∀ v ∈ i.skills, ∃ s, v = .text s := by
    rw [listed] at read
    obtain ⟨dated, texts⟩ := Bool.and_eq_true_iff.1 (List.all_eq_true.1 read i member)
    constructor
    · obtain ⟨t, _, same⟩ := ok_of_isOk (x := (dateTime? i.analyzedAt, ())) dated
      exact ⟨t, (Prod.mk.inj same).1⟩
    · intro v listed
      obtain ⟨s, told⟩ := Option.isSome_iff_exists.1 (List.all_eq_true.1 texts v listed)
      exact ⟨s, Value.eq_of_text? told⟩
  refine ⟨by decide +kernel, ?_⟩
  exact (skills_follow_projects (leanSince "2019-01-01") _ rfl fun is w' listed i member => (each listed member).1).2
    fun is w' listed i member => (each listed member).2

end Folio.Api.Insights
