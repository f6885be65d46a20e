import Playbook.Proofs.Resolution.Reports

/-!
# Rulepacks for languages

A rulepack that is tagged with a language of a project is let in where that
language is used: for the whole project, or for one of its parts. A rulepack
that is tagged with no language is let in everywhere.
-/

namespace Playbook

open Work

variable {project : Project} {pack : Rulepack} {languages : List String} {language : String}

namespace Project

def allStacks (project : Project) : List TechStack :=
  project.techStack :: project.techStacks.map (·.2)

/-- A language, in small letters, of the whole project or of a part of it. -/
def Uses (project : Project) (language : String) : Prop :=
  ∃ stack ∈ project.allStacks, language ∈ stack.languages.map Text.lower

theorem mem_allLanguages : language ∈ project.allLanguages ↔ project.Uses language := by
  have hfold (listed seen : List String) :
      language ∈ listed.foldl (fun seen other =>
          if seen.contains other then seen else seen ++ [other]) seen ↔
        language ∈ seen ∨ language ∈ listed := by
    induction listed generalizing seen with
    | nil => simp
    | cons first listed ih =>
        rw [List.foldl_cons, ih, List.mem_cons, ← or_assoc]
        apply or_congr_left
        split
        · rename_i hseen
          rw [List.contains_iff_mem] at hseen
          constructor
          · exact .inl
          · rintro (h | rfl)
            · exact h
            · exact hseen
        · simp
  rw [allLanguages, hfold, Uses, allStacks]
  simp

/-- Where the parts have different names, each is found under its own. -/
theorem stack?_eq_some (distinct : (project.techStacks.map (·.1)).Nodup) {name : String}
    {stack : TechStack} (h : (name, stack) ∈ project.techStacks) :
    project.stack? name = some stack := by
  obtain ⟨before, after, hstacks⟩ := List.append_of_mem h
  rw [hstacks, List.map_append, List.map_cons, List.nodup_append, List.nodup_cons] at distinct
  rw [stack?, hstacks, List.reverse_append, List.reverse_cons, List.append_assoc,
    List.singleton_append, List.lookup_eq_some_iff]
  refine ⟨after.reverse, before.reverse, rfl, fun entry hentry => ?_⟩
  have hne : name ≠ entry.1 := by
    rintro rfl
    exact distinct.2.1.1 (List.mem_map.2 ⟨entry, List.mem_reverse.1 hentry, rfl⟩)
  simpa using hne

end Project

/-! ## The check of languages -/

/-- A tag that speaks of a language: of a common one, or of one that the project uses. -/
def SpeaksOf (project : Project) (tag : String) : Prop :=
  Text.lower tag ∈ knownLanguages ∨ project.Uses (Text.lower tag)

/-- A tag that is a language of the context lets the rulepack in. -/
theorem stackAllows_of_mem {tag : String} (htag : tag ∈ pack.tags)
    (h : Text.lower tag ∈ languageContext project languages) :
    stackAllows project languages pack = true := by
  have htags : pack.tags ≠ [] := List.ne_nil_of_mem htag
  have hcontext : languageContext project languages ≠ [] := List.ne_nil_of_mem h
  have hshared :
      (pack.tags.map Text.lower).any (languageContext project languages).contains = true := by
    rw [List.any_eq_true]
    exact ⟨_, List.mem_map_of_mem htag, List.contains_iff_mem.2 h⟩
  simp [stackAllows, htags, hcontext, hshared]

/-- Tags that speak of no language keep the rulepack out nowhere. -/
theorem stackAllows_of_general (h : ∀ tag ∈ pack.tags, ¬ SpeaksOf project tag)
    (languages : List String) : stackAllows project languages pack = true := by
  have hown : ∀ tag ∈ pack.tags, Text.lower tag ∉ project.allLanguages := fun tag htag hmem =>
    h tag htag (.inr (Project.mem_allLanguages.1 hmem))
  have hknown : ∀ tag ∈ pack.tags, Text.lower tag ∉ knownLanguages := fun tag htag hmem =>
    h tag htag (.inl hmem)
  have hspecific : (pack.tags.map Text.lower).any (fun tag =>
      knownLanguages.contains tag || project.allLanguages.contains tag) = false := by
    simpa [List.any_eq_false] using fun tag htag => ⟨hknown tag htag, hown tag htag⟩
  have hused : (pack.tags.map Text.lower).any project.allLanguages.contains = false := by
    simpa [List.any_eq_false] using hown
  rw [stackAllows]
  split
  · rfl
  · dsimp only
    split
    · rw [hused, Bool.not_false]
    · rw [hspecific, Bool.not_false, Bool.true_or]

/-- The languages of a stack are the context of that stack. -/
theorem languageContext_of_ne_nil (h : languages ≠ []) :
    languageContext project languages = languages.map Text.lower := by
  simp [languageContext, h]

theorem languageContext_nil :
    languageContext project [] = project.techStack.languages.map Text.lower := by
  simp [languageContext]

/-! ## Admission in contexts -/

namespace Resolver

variable {resolver : Resolver} {items : List (Value × Rulepack)} {id : String}

/-- A rulepack is let in on behalf of a project where some languages are the context. -/
def LetsIn (resolver : Resolver) (project : Project) (id : String) (languages : List String) :
    Prop :=
  ((admitsRulepack id (some project) languages).runFrom resolver).1 = .ok true

/-- What the lists let in needs only to pass the check of languages. -/
theorem letsIn_of_allows (hitems : resolver.rulepacks.Gives items)
    (hlisted : resolver.listed (some project) id = true) (hpack : packIn items id = some pack)
    (h : stackAllows project languages pack = true) :
    resolver.LetsIn project id languages := by
  have hreport : Admissions.Reportable (some project) .rulepacks := by
    by_contra hreport
    rw [not_listed hreport] at hlisted
    cases hlisted
  have hadmits : (view items (some project) languages).admits id = true := by
    rw [listed, runFrom_eq, Admissions.exec_admits hreport, Admissions.text_isAmong] at hlisted
    exact hlisted
  rw [packIn] at hpack
  rw [LetsIn, exec_admitsRulepack hitems hreport, hadmits, hpack]
  exact congrArg Except.ok h

/--
A rulepack that the lists of a project let in is let in for the project or for
a part of it if a tag of it is one of their languages, and always if no tag of
it is a language.
-/
theorem letsIn_of_listed (hitems : resolver.rulepacks.Gives items)
    (distinct : (project.techStacks.map (·.1)).Nodup)
    (hlisted : resolver.listed (some project) id = true) (hpack : packIn items id = some pack) :
    ((∃ tag ∈ pack.tags, project.Uses (Text.lower tag)) →
      resolver.LetsIn project id [] ∨ ∃ name stack, project.stack? name = some stack ∧
        resolver.LetsIn project id stack.languages) ∧
    ((∀ tag ∈ pack.tags, ¬ SpeaksOf project tag) →
      ∀ languages, resolver.LetsIn project id languages) := by
  constructor
  · rintro ⟨tag, htag, stack, hstack, hlanguage⟩
    rcases List.mem_cons.1 hstack with rfl | hstack
    · left
      apply letsIn_of_allows hitems hlisted hpack
      apply stackAllows_of_mem htag
      rwa [languageContext_nil]
    · right
      obtain ⟨⟨name, stack⟩, hentry, rfl⟩ := List.mem_map.1 hstack
      refine ⟨name, stack, Project.stack?_eq_some distinct hentry, ?_⟩
      apply letsIn_of_allows hitems hlisted hpack
      apply stackAllows_of_mem htag
      have hsome : stack.languages ≠ [] := by
        rintro hnone
        simp [hnone] at hlanguage
      rwa [languageContext_of_ne_nil hsome]
  · intro hgeneral languages
    exact letsIn_of_allows hitems hlisted hpack (stackAllows_of_general hgeneral languages)

/-- A shop with a back end and a front end, which names no language for the whole. -/
def shopParts : Project :=
  let stack (languages : List String) : TechStack := { (default : TechStack) with languages }
  { (default : Project) with
    id := .text "shop"
    techStack := stack []
    techStacks := [("backend", stack ["Python"]), ("frontend", stack ["Elm", "TypeScript"])] }

/-- One rulepack for a language of the front end, and one for the style of all that is written. -/
def taggedPacks : List (Value × Rulepack) :=
  [(.text "elm", { (default : Rulepack) with id := .text "elm", tags := ["review", "ELM"] }),
   (.text "style", { (default : Rulepack) with id := .text "style", tags := ["Style"] })]

theorem letsIn_of_listed_parts :
    let resolver : Resolver := ⟨⟨[], []⟩, .ready taggedPacks⟩
    (shopParts.techStacks.map (·.1)).Nodup ∧ resolver.listed (some shopParts) "elm" = true ∧
      resolver.listed (some shopParts) "style" = true ∧
      (resolver.LetsIn shopParts "elm" [] ∨ ∃ name stack, shopParts.stack? name = some stack ∧
        resolver.LetsIn shopParts "elm" stack.languages) ∧
      resolver.LetsIn shopParts "style" ["Cobol"] := by
  intro resolver
  have hitems : resolver.rulepacks.Gives taggedPacks := rfl
  have distinct : (shopParts.techStacks.map (·.1)).Nodup := by decide
  have helm : resolver.listed (some shopParts) "elm" = true := rfl
  have hstyle : resolver.listed (some shopParts) "style" = true := rfl
  refine ⟨distinct, helm, hstyle, ?_, ?_⟩
  · apply (letsIn_of_listed hitems distinct helm rfl).1
    refine ⟨"ELM", by decide, ⟨["Elm", "TypeScript"], [], [], [], [], []⟩, ?_, ?_⟩
    · decide
    · decide
  · apply (letsIn_of_listed hitems distinct hstyle rfl).2
    intro tag htag
    obtain rfl : tag = "Style" := by simpa [taggedPacks] using htag
    rintro (hknown | ⟨stack, hstack, hused⟩)
    · revert hknown
      decide
    · revert stack
      decide

end Resolver

end Playbook
