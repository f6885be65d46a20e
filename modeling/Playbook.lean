import Playbook.Inheritance.Cycles
import Playbook.Main
import Playbook.Proofs.Recipe.Compilation
import Playbook.Proofs.Resolution.History
import Playbook.Proofs.Resolution.Reports
import Playbook.Proofs.Store.Containment
import Playbook.Proofs.Validation.Soundness
import Playbook.Schema.Manifest
import Playbook.Proofs.Manifest.Acceptance
import Playbook.Proofs.Schema.Violations
import Playbook.Proofs.Validation.Comparison
import Playbook.Proofs.Validation.Gathering
import Playbook.Proofs.Validation.Totality
import Playbook.Proofs.Recipe.Completion
import Playbook.Proofs.Recipe.History
import Playbook.Proofs.Store.Items
import Playbook.Proofs.Validation.Completion
import Playbook.Proofs.Generation.Features
import Playbook.Proofs.Recipe.Quoting
import Playbook.Proofs.Recipe.Models
import Playbook.Proofs.Recipe.Substitution
import Playbook.Proofs.Recipe.Syntax
import Playbook.Proofs.Store.Calls
import Playbook.Proofs.Generation.Accounts
import Playbook.Proofs.Generation.Overwriting
import Playbook.Proofs.Resolution.Cycles
import Playbook.Proofs.Resolution.Languages
import Playbook.Proofs.Resolution.Prompts
import Playbook.Proofs.Validation.Exclusivity
import Playbook.Proofs.Inheritance.Components
import Playbook.Proofs.Recipe.Partition
import Playbook.Proofs.Recipe.Checks
import Playbook.Proofs.Generation.Interruption
import Playbook.Proofs.Template.Sections
import Playbook.Proofs.Template.Prompts
import Playbook.Proofs.Recipe.Handover
import Playbook.Proofs.Settings.Layers
import Playbook.Proofs.Validation.Forms
import Playbook.Proofs.Recipe.Keys
import Playbook.Proofs.Shell.Layout
import Playbook.Proofs.Shell.ReadingBack
