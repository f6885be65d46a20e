import Playbook.Manifest.Agent
import Playbook.Manifest.Feature
import Playbook.Manifest.Prompt
import Playbook.Manifest.Recipe
import Playbook.Proofs.Faults

/-!
# Faults of reading manifests

A document that gives no manifest has a fault in one of its values.
-/

namespace Playbook

open Fault (IsLocal)

/-! ## Values -/

namespace Value

variable (v : Value) (name : String)

theorem isLocal_shown : FailsBy IsLocal v.shown := by
  unfold shown
  split
  · exact .ok _
  · exact FailsBy.error_iff.2 rfl

theorem isLocal_entries : FailsBy IsLocal v.entries := by
  unfold entries
  split
  · exact .ok _
  · exact FailsBy.error_iff.2 rfl

theorem isLocal_fieldOr (default : Value) : FailsBy IsLocal (v.fieldOr name default) :=
  v.isLocal_entries.bind fun _ => .ok _

theorem isLocal_field : FailsBy IsLocal (v.field name) := v.isLocal_fieldOr name .null

theorem isLocal_required : FailsBy IsLocal (v.required name) := by
  unfold required
  split
  · split
    · exact .ok _
    · exact FailsBy.error_iff.2 rfl
  · exact FailsBy.error_iff.2 rfl

theorem isLocal_members : FailsBy IsLocal v.members := by
  unfold members
  split <;> first | exact .ok _ | exact FailsBy.error_iff.2 rfl

theorem isLocal_texts : FailsBy IsLocal v.texts := by
  unfold texts
  split
  · exact .ok _
  · split
    · exact .ok _
    · exact v.isLocal_members.bind fun _ => .mapM fun item _ => item.isLocal_shown

theorem isLocal_optionalText : FailsBy IsLocal v.optionalText := by
  unfold optionalText
  split
  · exact .ok _
  · exact .ok _
  · exact v.isLocal_shown.map _

theorem isLocal_textOrEmpty : FailsBy IsLocal v.textOrEmpty := isLocal_shown _

theorem isLocal_textPairs : FailsBy IsLocal v.textPairs := by
  unfold textPairs
  refine .ite (.ok _) (v.isLocal_entries.bind fun entries => .mapM fun entry _ => ?_)
  refine entry.1.isLocal_shown.bind fun key => ?_
  exact FailsBy.ite (.ok _) (entry.2.isLocal_shown.bind fun _ => .ok _)

theorem isLocal_editable : FailsBy IsLocal v.editable := by
  unfold editable
  split <;> first | exact .ok _ | exact FailsBy.error_iff.2 rfl

theorem isLocal_trimmed : FailsBy IsLocal v.trimmed := by
  unfold trimmed
  split <;> first | exact .ok _ | exact FailsBy.error_iff.2 rfl

theorem isLocal_wholeIn (base : Nat) (quoted : String) (text : List Char) :
    FailsBy IsLocal (wholeIn base quoted text) := by
  unfold wholeIn
  split <;> first | exact .ok _ | exact FailsBy.error_iff.2 rfl

theorem isLocal_whole : FailsBy IsLocal v.whole := by
  unfold whole
  split
  · exact .ok _
  · exact .ok _
  · split <;> first | exact .ok _ | exact FailsBy.error_iff.2 rfl
  · exact isLocal_wholeIn _ _ _
  · exact isLocal_wholeIn _ _ _
  · exact FailsBy.error_iff.2 rfl

theorem isLocal_pairsFrom (index : Nat) (items : List Value) :
    FailsBy IsLocal (pairsFrom index items) := by
  induction items generalizing index with
  | nil => exact .ok []
  | cons item items ih =>
      have hpair : FailsBy IsLocal (pair index item) := by
        refine item.isLocal_members.bind fun members => ?_
        split
        · exact .ite (.ok _) (FailsBy.error_iff.2 rfl)
        · exact FailsBy.error_iff.2 rfl
      rw [pairsFrom]
      exact hpair.bind fun _ => (ih (index + 1)).bind fun _ => .ok _

theorem isLocal_asMapping : FailsBy IsLocal v.asMapping := by
  unfold asMapping
  split
  · exact .ok _
  · exact v.isLocal_members.bind fun members => (isLocal_pairsFrom 0 members).bind fun _ => .ok _

end Value

theorem isLocal_choose {α : Type} (kind : String) (choices : List (String × α)) (v : Value) :
    FailsBy IsLocal (choose kind choices v) := by
  unfold choose
  dsimp only
  split
  · exact .ok _
  · refine FailsBy.error_iff.2 ?_
    split <;> rfl

/-! ## Manifests -/

theorem Agent.isLocal_ofValue (v : Value) : FailsBy IsLocal (ofValue v) := by
  unfold ofValue
  refine (v.isLocal_field _).bind fun prompt => (v.isLocal_field _).bind fun defaults => ?_
  refine (v.isLocal_required _).bind fun id => (v.isLocal_field _).bind fun purpose => ?_
  refine (v.isLocal_fieldOr _ _).bind fun version => version.isLocal_shown.bind fun version => ?_
  refine (v.isLocal_field _).bind fun description => ?_
  refine (v.isLocal_field _).bind fun rulepacks => rulepacks.isLocal_texts.bind fun rulepacks => ?_
  refine (Value.isLocal_field _ _).bind fun system => (Value.isLocal_field _ _).bind fun user => ?_
  refine (v.isLocal_field _).bind fun listed => listed.isLocal_texts.bind fun constraints => ?_
  refine (Value.isLocal_field _ _).bind fun model => model.isLocal_optionalText.bind fun model => ?_
  refine (Value.isLocal_field _ _).bind fun temperature => ?_
  refine (Value.isLocal_field _ _).bind fun most => ?_
  refine (v.isLocal_field _).bind fun listed => listed.isLocal_texts.bind fun capabilities => ?_
  exact (v.isLocal_field _).bind fun listed => listed.isLocal_texts.bind fun tools => .ok _

theorem PromptVariable.isLocal_ofValue (v : Value) : FailsBy IsLocal (ofValue v) := by
  unfold ofValue
  refine (v.isLocal_required _).bind fun name => (v.isLocal_fieldOr _ _).bind fun required => ?_
  refine (v.isLocal_field _).bind fun description => (v.isLocal_field _).bind fun given => ?_
  exact given.isLocal_optionalText.bind fun _ => .ok _

theorem Prompt.isLocal_ofValue (v : Value) (sourcePath : String) :
    FailsBy IsLocal (ofValue v sourcePath) := by
  unfold ofValue
  refine (v.isLocal_field _).bind fun listed => (Value.isLocal_members _).bind fun items => ?_
  refine FailsBy.bind (.mapM fun item _ => PromptVariable.isLocal_ofValue item) fun declared => ?_
  refine (v.isLocal_required _).bind fun id => (v.isLocal_field _).bind fun content => ?_
  refine (v.isLocal_field _).bind fun description => (v.isLocal_fieldOr _ _).bind fun version => ?_
  refine version.isLocal_shown.bind fun version => (v.isLocal_field _).bind fun model => ?_
  refine model.isLocal_optionalText.bind fun model => (v.isLocal_field _).bind fun tags => ?_
  exact tags.isLocal_texts.bind fun tags => .ok _

theorem Feature.isLocal_ofValue (v : Value) : FailsBy IsLocal (ofValue v) := by
  have hbinding (v : Value) : FailsBy IsLocal (RecipeBinding.ofValue? v) := by
    unfold RecipeBinding.ofValue?
    refine .ite (.ok _) ((v.isLocal_field _).bind fun id => .ite (.ok _) ?_)
    refine (v.isLocal_field _).bind fun context => context.isLocal_textPairs.bind fun context => ?_
    exact (v.isLocal_field _).bind fun tools => tools.isLocal_texts.bind fun tools => .ok _
  unfold ofValue
  refine (v.isLocal_field _).bind fun recipe => (hbinding recipe).bind fun recipe => ?_
  refine (v.isLocal_required _).bind fun id => (v.isLocal_field _).bind fun name => ?_
  refine (v.isLocal_fieldOr _ _).bind fun version => version.isLocal_shown.bind fun version => ?_
  refine (v.isLocal_field _).bind fun description => (v.isLocal_field _).bind fun model => ?_
  exact model.isLocal_optionalText.bind fun _ => .ok _

theorem Condition.isLocal_ofValue? (v : Value) : FailsBy IsLocal (ofValue? v) := by
  have hcheck (v : Value) : FailsBy IsLocal (Check.ofValue? v) := by
    unfold Check.ofValue?
    refine .ite (.ok _) ((v.isLocal_fieldOr _ _).bind fun type => ?_)
    refine (isLocal_choose _ _ type).bind fun inspection => ?_
    refine (v.isLocal_field _).bind fun value => value.isLocal_textOrEmpty.bind fun value => ?_
    refine (v.isLocal_field _).bind fun text => text.isLocal_textOrEmpty.bind fun pattern => ?_
    refine (v.isLocal_field _).bind fun text => text.isLocal_textOrEmpty.bind fun cmd => ?_
    exact (v.isLocal_field _).bind fun text => text.isLocal_textOrEmpty.bind fun prompt => .ok _
  unfold ofValue?
  refine .ite (.ok _) ((v.isLocal_field _).bind fun check => (hcheck check).bind fun check => ?_)
  exact (v.isLocal_fieldOr _ _).bind fun type => (isLocal_choose _ _ type).bind fun _ => .ok _

theorem Step.isLocal_ofValue (v : Value) : FailsBy IsLocal (ofValue v) := by
  unfold ofValue
  refine (v.isLocal_required _).bind fun id => (v.isLocal_required _).bind fun agent => ?_
  refine (v.isLocal_field _).bind fun task => (v.isLocal_field _).bind fun model => ?_
  refine model.isLocal_optionalText.bind fun model => (v.isLocal_field _).bind fun document => ?_
  refine document.isLocal_optionalText.bind fun document => (v.isLocal_field _).bind fun paths => ?_
  refine paths.isLocal_texts.bind fun paths => (v.isLocal_field _).bind fun continued => ?_
  refine (v.isLocal_field _).bind fun waits => (v.isLocal_field _).bind fun condition => ?_
  exact (Condition.isLocal_ofValue? condition).bind fun _ => .ok _

theorem Loop.isLocal_ofValue? (v : Value) : FailsBy IsLocal (ofValue? v) := by
  have hcondition (v : Value) : FailsBy IsLocal (LoopCondition.ofValue? v) := by
    unfold LoopCondition.ofValue?
    refine .ite (.ok _) ((v.isLocal_fieldOr _ _).bind fun type => ?_)
    refine (isLocal_choose _ _ type).bind fun exit => ?_
    refine (v.isLocal_field _).bind fun text => text.isLocal_textOrEmpty.bind fun cmd => ?_
    exact (v.isLocal_field _).bind fun text => text.isLocal_textOrEmpty.bind fun prompt => .ok _
  unfold ofValue?
  refine .ite (.ok _) ((v.isLocal_field _).bind fun condition => ?_)
  refine (hcondition condition).bind fun condition => (v.isLocal_field _).bind fun steps => ?_
  refine steps.isLocal_texts.bind fun steps => (v.isLocal_field _).bind fun limit => ?_
  exact (Value.isLocal_whole _).bind fun _ => .ok _

theorem Recipe.isLocal_ofValue (v : Value) : FailsBy IsLocal (ofValue v) := by
  have hentry (entry : Value × Value) : FailsBy IsLocal (toolEntry entry) :=
    entry.1.isLocal_shown.bind fun name => (Value.isLocal_asMapping _).bind fun _ => .ok _
  unfold ofValue
  refine (v.isLocal_field _).bind fun options => (Value.isLocal_entries _).bind fun entries => ?_
  refine FailsBy.bind (.mapM fun entry _ => hentry entry) fun toolOptions => ?_
  refine (v.isLocal_required _).bind fun id => (v.isLocal_field _).bind fun listed => ?_
  refine (Value.isLocal_members _).bind fun items => ?_
  refine FailsBy.bind (.mapM fun item _ => Step.isLocal_ofValue item) fun steps => ?_
  refine (v.isLocal_field _).bind fun description => (v.isLocal_fieldOr _ _).bind fun version => ?_
  refine version.isLocal_shown.bind fun version => (v.isLocal_field _).bind fun tags => ?_
  refine tags.isLocal_texts.bind fun tags => (v.isLocal_field _).bind fun tools => ?_
  refine tools.isLocal_texts.bind fun tools => (v.isLocal_field _).bind fun pairs => ?_
  refine pairs.isLocal_textPairs.bind fun defaults => (v.isLocal_field _).bind fun model => ?_
  refine model.isLocal_optionalText.bind fun model => (v.isLocal_field _).bind fun loop => ?_
  refine (Loop.isLocal_ofValue? loop).bind fun loop => (v.isLocal_fieldOr _ _).bind fun way => ?_
  exact (isLocal_choose _ _ way).bind fun _ => .ok _

end Playbook
