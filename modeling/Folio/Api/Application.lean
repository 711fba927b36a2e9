/-
# Api.Application -- all routes

Routers are tried in order.
-/
import Folio.Api.Analyses
import Folio.Api.Entries
import Folio.Api.Insights
import Folio.Api.Showcases
import Folio.Api.Users

namespace Folio.Api

open Documents Entries Insights Projects Users

open Cv (Kind Part)

variable (kind : Kind)

def analyses : Router := ⟨"analysis", [⟨.get, "/analyze/", "perform_analysis_API", Analyses.run⟩]⟩

def users : Router := ⟨"consent", [
  ⟨.post, "/privacy-consent", "update_privacy_consent", setConsent⟩,
  ⟨.post, "/config/update", "update_config_file", setSettings⟩,
  ⟨.get, "/config/get", "get_config_dict", settings⟩]⟩

def projects : Router := ⟨"projects", [
  ⟨.post, "/projects/upload", "upload_project", upload⟩,
  ⟨.get, "/projects/", "return_all_saved_projects", list⟩,
  ⟨.get, "/projects/\x7bid\x7d", "get_project_by_name", view⟩,
  ⟨.delete, "/projects/\x7bid\x7d", "delete_project", delete⟩,
  ⟨.get, "/projects/\x7bid\x7d/delete", "delete_project_legacy", delete⟩,
  ⟨.post, "/projects/\x7bid\x7d/thumbnail", "upload_project_thumbnail", setThumbnail⟩,
  ⟨.get, "/projects/\x7bid\x7d/thumbnail", "get_project_thumbnail", thumbnail⟩,
  ⟨.get, "/projects/\x7bid\x7d/thumbnail/image", "get_project_thumbnail_image",
    thumbnailImage⟩,
  ⟨.delete, "/projects/\x7bid\x7d/thumbnail", "delete_project_thumbnail", deleteThumbnail⟩,
  ⟨.post, "/projects/\x7bid\x7d/type", "update_project_type", setKind⟩,
  ⟨.post, "/projects/\x7bid\x7d/duration", "update_project_duration", setDuration⟩]⟩

def skills : Router := ⟨"skills", [⟨.get, "/skills", "list_skills", allSkills⟩]⟩

def documentRoute (method : Method) (rest name : String) (answer : Kind → Request → Action Value) : Route :=
  ⟨method, "/" ++ word kind ++ "/\x7b" ++ idKey kind ++ "\x7d" ++ rest, name,
    answer kind⟩

def lifeRoutes : List Route :=
  let word := word kind
  [⟨.get, s!"/{word}s", s!"list_{word}s", fun _ => saved kind⟩,
    ⟨.post, s!"/{word}/generate", s!"generate_{word}", make kind⟩,
    documentRoute kind .get "" s!"get_{word}" view,
    documentRoute kind .post "/edit" s!"edit_{word}" edit]

def renderRoutes : List Route :=
  let word := word kind
  [documentRoute kind .post "/render" s!"render_{word}_default" renderPages,
    documentRoute kind .post "/render/\x7bformat\x7d" s!"render_{word}" render,
    documentRoute kind .post "/export/\x7bformat\x7d" s!"export_{word}" store,
    documentRoute kind .post "/export/\x7bformat\x7d/custom" s!"export_{word}_custom"
      storeAt]

def projectRoutes : List Route := [
  documentRoute kind .post "/add/project/manual" "add_project_manual" addOwnProject,
  documentRoute kind .post "/add/project/\x7bproject_name\x7d" "add_project" addStoredProject]

def otherProjectRoutes : List Route := [
  documentRoute kind .post "/add/project/\x7bproject_name\x7d/ai" "add_project_ai"
    addModelProject,
  documentRoute kind .delete "/project/\x7bproject_name\x7d" "remove_project"
    (remove · .projects "project_name")]

def entryRoutes (p : Part) (word nameKey : String) : List Route := [
  documentRoute kind .post s!"/add/{word}" s!"add_{word}" (add · p),
  documentRoute kind .delete s!"/{word}/\x7b{nameKey}\x7d" s!"remove_{word}"
    (remove · p nameKey)]

def skillRoutes : List Route := [
  documentRoute kind .post "/add/skill" "add_skill" (add · .skills),
  documentRoute kind .post "/skill/\x7blabel\x7d/append" "append_skill" append,
  documentRoute kind .delete "/skill/\x7blabel\x7d" "remove_skill" (remove · .skills "label"),
  documentRoute kind .post "/skill/\x7blabel\x7d/level" "update_skill_level" setLevel]

def endRoute : Route :=
  documentRoute kind .delete "" ("delete_" ++ word kind) delete

def portfolios : Router := ⟨"portfolio", [
  ⟨.post, "/portfolio-showcase/\x7bproject_name\x7d/role", "set_portfolio_showcase_role",
    Showcases.setRole⟩,
  ⟨.get, "/portfolio-showcase/\x7bproject_name\x7d/role", "get_portfolio_showcase_role",
    Showcases.role⟩]
  ++ lifeRoutes .portfolio ++ projectRoutes .portfolio ++ renderRoutes .portfolio
  ++ otherProjectRoutes .portfolio ++ skillRoutes .portfolio ++ [endRoute .portfolio]⟩

def resumes : Router := ⟨"resume",
  lifeRoutes .resume ++ renderRoutes .resume ++ projectRoutes .resume ++ otherProjectRoutes .resume
  ++ entryRoutes .resume .education "education" "institution_name"
  ++ entryRoutes .resume .experience "experience" "company_name" ++ skillRoutes .resume
  ++ entryRoutes .resume .awards "award" "award_name" ++ [endRoute .resume]⟩

def representation : Router := ⟨"representation", [
  ⟨.get, "/representation/preferences", "get_preferences", preferences⟩,
  ⟨.post, "/representation/preferences", "set_preferences", setPreferences⟩,
  ⟨.get, "/representation/projects", "list_projects_with_preferences", presented⟩]⟩

def insights : Router := ⟨"insights", [
  ⟨.get, "/insights/projects", "return_insight_projects_chronological", Insights.projects⟩,
  ⟨.get, "/insights/skills", "return_insights_skills_chronological", Insights.skills⟩,
  ⟨.get, "/insights/top-projects", "return_top_project_histories", top⟩]⟩

def routers : List Router :=
  [analyses, users, projects, skills, portfolios, representation, resumes, insights]

def route? (router name : String) : Option Route :=
  (routers.find? (·.name == router)).bind (·.route? name)

def origins : List String := ["http://localhost:3000", "http://127.0.0.1:3000"]

def description : Value := .object [
  ("title", "DevDoc API"),
  ("description", "API for analysing projects and generating resumes and portfolios."),
  ("version", "1.0.0"),
  ("middleware", .list [.object [("allow_origins", origins), ("allow_credentials", true),
    ("allow_methods", .texts ["*"]), ("allow_headers", .texts ["*"])]]),
  ("routes", .list (routers.flatMap fun router => router.routes.map fun r =>
    .texts [r.method.label, r.path, r.name]))]

end Folio.Api
