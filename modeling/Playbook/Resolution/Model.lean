import Playbook.Manifest.Agent
import Playbook.Manifest.Feature
import Playbook.Manifest.Project
import Playbook.Manifest.Prompt

/-!
# The model in effect

The model of a unit of work comes from the first layer that names one:
feature, project, agent, prompt.
-/

namespace Playbook

inductive ModelLayer where
  | feature
  | project
  | agent
  | prompt
deriving DecidableEq, Repr

namespace ModelLayer

def name : ModelLayer → String
  | .feature => "feature"
  | .project => "project"
  | .agent => "agent"
  | .prompt => "prompt"

def label : ModelLayer → String
  | .feature => "feature-level (highest priority)"
  | .project => "project-level"
  | .agent => "agent-level (default)"
  | .prompt => "prompt-level"

end ModelLayer

structure ModelChoice where
  model : String
  layer : ModelLayer
deriving DecidableEq, Repr

structure ModelSources where
  feature : Option Feature := none
  project : Option Project := none
  agent : Option Agent := none
  prompt : Option Prompt := none

namespace ModelSources

def layers (sources : ModelSources) : List (ModelLayer × Option String) :=
  [(.feature, sources.feature.bind (·.model)),
   (.project, sources.project.bind (·.aiTools.model)),
   (.agent, sources.agent.bind (·.defaults.model)),
   (.prompt, sources.prompt.bind (·.model))]

def choice? (sources : ModelSources) : Option ModelChoice :=
  sources.layers.findSome? fun (layer, model) => model.map fun m => ⟨m, layer⟩

def model? (sources : ModelSources) : Option String := sources.choice?.map (·.model)

end ModelSources

end Playbook
