import Playbook.Proofs.Yaml.Scanning
import Playbook.Yaml.Merge

/-!
# Troubles of reading nodes

Whatever keeps tokens from becoming a table of nodes, or a mapping from taking
in what it merges, is a trouble of the text as well.
-/

namespace Playbook.Yaml

variable {σ α β : Type} {I : σ → Prop} {Q : α → Prop} {R : β → Prop} {m : StateT σ Result α}
  {next : α → StateT σ Result β}

/--
Where the work fails, it is by a trouble of the text, and else it keeps an
invariant and gives what has a property.
-/
def Meets (I : σ → Prop) (Q : α → Prop) (m : StateT σ Result α) : Prop :=
  ∀ s, I s → FailsBy Trouble.IsLocal (m.run s) ∧ ∀ a t, m.run s = .ok (a, t) → I t ∧ Q a

namespace Meets

theorem mono {Q' : α → Prop} (h : Meets I Q m) (himp : ∀ a, Q a → Q' a) : Meets I Q' m :=
  fun s hs => ⟨(h s hs).1, fun a t heq => ((h s hs).2 a t heq).imp_right (himp a)⟩

theorem pure {a : α} (h : Q a) : Meets I Q (Pure.pure a) := by
  refine fun s hs => ⟨.ok _, fun b t heq => ?_⟩
  cases heq
  exact ⟨hs, h⟩

theorem throw {trouble : Trouble} (h : trouble.IsLocal) :
    Meets I Q (MonadExcept.throw trouble : StateT σ Result α) :=
  fun _ _ => ⟨FailsBy.error_iff.2 h, nofun⟩

theorem modify {f : σ → σ} (h : ∀ s, I s → I (f s)) : Meets I (fun _ => True) (modify f) := by
  refine fun s hs => ⟨.ok _, fun b t heq => ?_⟩
  cases heq
  exact ⟨h s hs, trivial⟩

theorem set {s : σ} (h : I s) : Meets I (fun _ => True) (MonadStateOf.set s) := by
  refine fun _ _ => ⟨.ok _, fun b t heq => ?_⟩
  cases heq
  exact ⟨h, trivial⟩

theorem bind (h : Meets I Q m) (hnext : ∀ a, Q a → Meets I R (next a)) :
    Meets I R (m >>= next) := by
  intro s hs
  obtain ⟨hfails, hkeeps⟩ := h s hs
  rw [StateT.run_bind]
  cases hrun : m.run s with
  | error trouble => exact ⟨FailsBy.error_iff.2 (hfails trouble hrun), nofun⟩
  | ok found =>
      obtain ⟨hmid, hgiven⟩ := hkeeps _ _ hrun
      exact hnext found.1 hgiven found.2 hmid

theorem get_bind {next : σ → StateT σ Result β} (h : ∀ s, I s → Meets I R (next s)) :
    Meets I R (MonadState.get >>= next) :=
  fun s hs => h s hs s hs

theorem ite {p : Prop} [Decidable p] {other : StateT σ Result α} (h : Meets I Q m)
    (h' : Meets I Q other) : Meets I Q (if p then m else other) := by
  split
  · exact h
  · exact h'

theorem map {f : α → β} (h : Meets I Q m) (hf : ∀ a, Q a → R (f a)) : Meets I R (f <$> m) := by
  rw [map_eq_pure_bind]
  exact h.bind fun a ha => pure (hf a ha)

theorem lift {result : Result α} (h : FailsBy Trouble.IsLocal result)
    (hgives : ∀ a, result = .ok a → Q a) : Meets I Q (StateT.lift result) := by
  intro s hs
  cases result with
  | error trouble => exact ⟨FailsBy.error_iff.2 (h trouble rfl), nofun⟩
  | ok a =>
      refine ⟨.ok _, fun b t heq => ?_⟩
      cases heq
      exact ⟨hs, hgives a rfl⟩

theorem mapM {l : List α} {f : α → StateT σ Result β} (h : ∀ a, Meets I R (f a)) :
    Meets I (fun bs => ∀ b ∈ bs, R b) (l.mapM f) := by
  induction l with
  | nil => exact pure fun _ hb => absurd hb List.not_mem_nil
  | cons a l ih =>
      rw [List.mapM_cons]
      exact (h a).bind fun b hb => ih.bind fun rest hrest =>
        pure (List.forall_mem_cons.2 ⟨hb, hrest⟩)

theorem foldlM {l : List α} {f : β → α → StateT σ Result β}
    (h : ∀ b a, R b → Meets I R (f b a)) {b : β} (hb : R b) : Meets I R (l.foldlM f b) := by
  induction l generalizing b with
  | nil => exact pure hb
  | cons a l ih =>
      rw [List.foldlM_cons]
      exact (h b a hb).bind fun c hc => ih hc

end Meets

/-- The same where nothing is said of what is given. -/
def Local (I : σ → Prop) (m : StateT σ Result α) : Prop := Meets I (fun _ => True) m

namespace Local

theorem pure (a : α) : Local I (Pure.pure a) := Meets.pure trivial

theorem throw {trouble : Trouble} (h : trouble.IsLocal) :
    Local I (MonadExcept.throw trouble : StateT σ Result α) := Meets.throw h

theorem get_bind {next : σ → StateT σ Result β} (h : ∀ s, I s → Local I (next s)) :
    Local I (MonadState.get >>= next) := Meets.get_bind h

theorem modify {f : σ → σ} (h : ∀ s, I s → I (f s)) : Local I (modify f) := Meets.modify h

theorem set {s : σ} (h : I s) : Local I (MonadStateOf.set s) := Meets.set h

theorem bind (h : Local I m) (hnext : ∀ a, Local I (next a)) : Local I (m >>= next) :=
  Meets.bind h fun a _ => hnext a

theorem ite {p : Prop} [Decidable p] {other : StateT σ Result α} (h : Local I m)
    (h' : Local I other) : Local I (if p then m else other) := Meets.ite h h'

theorem map (h : Local I m) (f : α → β) : Local I (f <$> m) := Meets.map h fun _ _ => trivial

theorem mapM {l : List α} {f : α → StateT σ Result β} (h : ∀ a, Local I (f a)) :
    Local I (l.mapM f) :=
  (Meets.mapM h).mono fun _ _ => trivial

theorem run {s : σ} (h : Local I m) (hs : I s) : FailsBy Trouble.IsLocal (m.run s) := (h s hs).1

end Local

/-! ## Nodes -/

/-- What stops the tokens is a trouble of the text. -/
def Reading.IsLocal (s : Reading) : Prop := s.behind.IsLocal

namespace Reader

open Reading (IsLocal)

theorem local_fail : Local IsLocal (fail : Reader α) := .throw trivial

theorem local_peek : Local IsLocal peek := by
  refine .get_bind fun s hs => ?_
  split
  · exact .throw hs
  · exact .pure _

theorem local_advance : Local IsLocal advance := .modify fun _ hs => hs

theorem local_sees (tokens : List Token) : Local IsLocal (sees tokens) :=
  local_peek.bind fun _ => .pure _

theorem local_took (token : Token) : Local IsLocal (took token) :=
  (local_sees _).bind fun _ => .ite (local_advance.bind fun _ => .pure _) (.pure _)

theorem local_expect (token : Token) : Local IsLocal (expect token) :=
  (local_took _).bind fun _ => .ite local_fail (.pure ())

theorem local_newNode (node : Node) : Local IsLocal (newNode node) := by
  refine fun s hs => ⟨.ok _, fun number t h => ?_⟩
  cases h
  exact ⟨hs, trivial⟩

theorem local_setNode (number : Nat) (node : Node) : Local IsLocal (setNode number node) :=
  .modify fun _ hs => hs

theorem local_emptyScalar : Local IsLocal emptyScalar := local_newNode _

/-! ## Anchors and tags -/

theorem local_anchor? : Local IsLocal anchor? := by
  refine local_peek.bind fun token => ?_
  split
  · exact local_advance.bind fun _ => .pure _
  · exact .pure none

theorem local_tagToken? : Local IsLocal tagToken? := by
  refine local_peek.bind fun token => ?_
  split
  · exact local_advance.bind fun _ => .pure _
  · exact .pure none

theorem local_tagName? (tag : Option (Option String × String)) : Local IsLocal (tagName? tag) := by
  unfold tagName?
  split
  · exact .pure none
  · exact .pure _
  · refine .get_bind fun s _ => ?_
    split
    · exact local_fail
    · exact .pure _

theorem local_properties : Local IsLocal properties := by
  have hrest (tag : Option (Option String × String)) (anchor : Option String) :
      Local IsLocal (do
        let properties : Properties := ⟨anchor, ← tagName? tag⟩
        let _ ← peek
        return properties) :=
    (local_tagName? tag).bind fun _ => local_peek.bind fun _ => .pure _
  refine local_anchor?.bind fun first => local_tagToken?.bind fun tag => ?_
  exact .ite (local_anchor?.bind fun anchor => hrest tag anchor) (hrest tag first)

theorem local_define (anchor : Option String) (number : Nat) :
    Local IsLocal (define anchor number) := by
  unfold define
  split
  · exact .pure ()
  · exact .modify fun _ hs => hs

theorem local_checkAnchor (anchor : Option String) : Local IsLocal (checkAnchor anchor) := by
  unfold checkAnchor
  split
  · exact .pure ()
  · exact .get_bind fun _ _ => .ite local_fail (.pure ())

/-! ## Content -/

theorem local_addScalar (found : Properties) (text : String) (plain : Bool) :
    Local IsLocal (addScalar found text plain) :=
  (local_checkAnchor _).bind fun _ => (local_newNode _).bind fun _ =>
    (local_define _ _).bind fun _ => .pure _

theorem local_orEmpty (found : Properties) : Local IsLocal (orEmpty found) :=
  .ite (local_fail.bind fun _ => local_addScalar _ _ _) (local_addScalar _ _ _)

theorem local_addSequence (found : Properties) {items : Reader (List Nat)}
    (h : Local IsLocal items) : Local IsLocal (addSequence found items) :=
  (local_checkAnchor _).bind fun _ => (local_newNode _).bind fun _ =>
    (local_define _ _).bind fun _ => h.bind fun _ => (local_setNode _ _).bind fun _ => .pure _

theorem local_addMapping (found : Properties) {entries : Reader (List (Nat × Nat))}
    (h : Local IsLocal entries) : Local IsLocal (addMapping found entries) :=
  (local_checkAnchor _).bind fun _ => (local_newNode _).bind fun _ =>
    (local_define _ _).bind fun _ => h.bind fun _ => (local_setNode _ _).bind fun _ => .pure _

mutual

theorem local_node (place : Place) : ∀ fuel, Local IsLocal (node place fuel)
  | 0 => local_fail
  | fuel + 1 => by
      refine local_peek.bind fun token => ?_
      split
      · refine local_advance.bind fun _ => .get_bind fun s _ => ?_
        split
        · exact .pure _
        · exact local_fail
      · exact local_properties.bind fun found => local_content place found fuel

theorem local_content (place : Place) (found : Properties) :
    ∀ fuel, Local IsLocal (content place found fuel)
  | 0 => local_fail
  | fuel + 1 => by
      refine local_peek.bind fun token => ?_
      split
      · exact local_advance.bind fun _ => local_addScalar _ _ _
      · exact local_addSequence _ (local_advance.bind fun _ => local_flowItems true fuel)
      · exact local_addMapping _ (local_advance.bind fun _ => local_flowEntries true fuel)
      · refine .ite (local_addSequence _ ?_) (local_orEmpty _)
        refine local_advance.bind fun _ => (local_blockItems fuel).bind fun items => ?_
        exact (local_expect _).bind fun _ => .pure _
      · refine .ite (local_addMapping _ ?_) (local_orEmpty _)
        refine local_advance.bind fun _ => (local_blockEntries fuel).bind fun items => ?_
        exact (local_expect _).bind fun _ => .pure _
      · exact .ite (local_addSequence _ (local_entryItems fuel)) (local_orEmpty _)
      · exact local_orEmpty _

theorem local_blockItems : ∀ fuel, Local IsLocal (blockItems fuel)
  | 0 => local_fail
  | fuel + 1 => by
      have hrest (item : Nat) : Local IsLocal (do return item :: (← blockItems fuel)) :=
        (local_blockItems fuel).bind fun _ => .pure _
      refine (local_took _).bind fun _ => .ite (.pure []) ((local_sees _).bind fun _ => ?_)
      exact .ite (local_emptyScalar.bind hrest) ((local_node _ fuel).bind hrest)

theorem local_entryItems : ∀ fuel, Local IsLocal (entryItems fuel)
  | 0 => local_fail
  | fuel + 1 => by
      have hrest (item : Nat) : Local IsLocal (do return item :: (← entryItems fuel)) :=
        (local_entryItems fuel).bind fun _ => .pure _
      refine (local_took _).bind fun _ => .ite (.pure []) ((local_sees _).bind fun _ => ?_)
      exact .ite (local_emptyScalar.bind hrest) ((local_node _ fuel).bind hrest)

theorem local_blockEntries : ∀ fuel, Local IsLocal (blockEntries fuel)
  | 0 => local_fail
  | fuel + 1 => by
      have hrest (key value : Nat) : Local IsLocal (do
          return (key, value) :: (← blockEntries fuel)) :=
        (local_blockEntries fuel).bind fun _ => .pure _
      have hvalue (key : Nat) : Local IsLocal (do
          let value ←
            if ← took .value then
              if ← sees [.key, .value, .blockEnd] then emptyScalar else node .blockOrEntries fuel
            else emptyScalar
          return (key, value) :: (← blockEntries fuel)) := by
        refine (local_took _).bind fun _ => .ite ((local_sees _).bind fun _ => .ite ?_ ?_) ?_
        · exact local_emptyScalar.bind (hrest key)
        · exact (local_node _ fuel).bind (hrest key)
        · exact local_emptyScalar.bind (hrest key)
      refine (local_took _).bind fun _ => .ite (.pure []) ((local_sees _).bind fun _ => ?_)
      exact .ite (local_emptyScalar.bind hvalue) ((local_node _ fuel).bind hvalue)

theorem local_flowValue (ends : List Token) : ∀ fuel, Local IsLocal (flowValue ends fuel)
  | 0 => local_fail
  | fuel + 1 => (local_took _).bind fun _ =>
      .ite ((local_sees _).bind fun _ => .ite local_emptyScalar (local_node _ fuel))
        local_emptyScalar

theorem local_flowItems (first : Bool) : ∀ fuel, Local IsLocal (flowItems first fuel)
  | 0 => local_fail
  | fuel + 1 => by
      have hrest (item : Nat) : Local IsLocal (do return item :: (← flowItems false fuel)) :=
        (local_flowItems false fuel).bind fun _ => .pure _
      have hvalue (key : Nat) : Local IsLocal (do
          return [(key, ← flowValue [.flowEntry, .flowSequenceEnd] fuel)]) :=
        (local_flowValue _ fuel).bind fun _ => .pure _
      have hitem : Local IsLocal (do
          if ← took .key then
            let item ← addMapping ⟨none, none⟩ do
              let key ←
                if ← sees [.value, .flowEntry, .flowSequenceEnd] then emptyScalar
                else node .flow fuel
              return [(key, ← flowValue [.flowEntry, .flowSequenceEnd] fuel)]
            return item :: (← flowItems false fuel)
          else if ← took .flowSequenceEnd then return []
          else
            let item ← node .flow fuel
            return item :: (← flowItems false fuel)) := by
        refine (local_took _).bind fun _ => .ite ?_ ?_
        · refine (local_addMapping _ ((local_sees _).bind fun _ => ?_)).bind hrest
          exact .ite (local_emptyScalar.bind hvalue) ((local_node _ fuel).bind hvalue)
        · exact (local_took _).bind fun _ => .ite (.pure []) ((local_node _ fuel).bind hrest)
      refine (local_took _).bind fun _ => .ite (.pure []) ?_
      exact .ite ((local_expect _).bind fun _ => hitem) hitem

theorem local_flowEntries (first : Bool) : ∀ fuel, Local IsLocal (flowEntries first fuel)
  | 0 => local_fail
  | fuel + 1 => by
      have hrest (key value : Nat) : Local IsLocal (do
          return (key, value) :: (← flowEntries false fuel)) :=
        (local_flowEntries false fuel).bind fun _ => .pure _
      have hvalue (key : Nat) : Local IsLocal (do
          let value ← flowValue [.flowEntry, .flowMappingEnd] fuel
          return (key, value) :: (← flowEntries false fuel)) :=
        (local_flowValue _ fuel).bind (hrest key)
      have hentry : Local IsLocal (do
          if ← took .key then
            let key ←
              if ← sees [.value, .flowEntry, .flowMappingEnd] then emptyScalar
              else node .flow fuel
            let value ← flowValue [.flowEntry, .flowMappingEnd] fuel
            return (key, value) :: (← flowEntries false fuel)
          else if ← took .flowMappingEnd then return []
          else
            let key ← node .flow fuel
            return (key, ← emptyScalar) :: (← flowEntries false fuel)) := by
        refine (local_took _).bind fun _ => .ite ?_ ?_
        · refine (local_sees _).bind fun _ => ?_
          exact .ite (local_emptyScalar.bind hvalue) ((local_node _ fuel).bind hvalue)
        · refine (local_took _).bind fun _ => .ite (.pure []) ?_
          exact (local_node _ fuel).bind fun key => local_emptyScalar.bind (hrest key)
      refine (local_took _).bind fun _ => .ite (.pure []) ?_
      exact .ite ((local_expect _).bind fun _ => hentry) hentry

end

/-! ## Documents -/

theorem local_directives : ∀ fuel versions, Local IsLocal (directives versions fuel)
  | 0, _ => local_fail
  | fuel + 1, versions => by
      have hrest := local_directives fuel
      refine local_peek.bind fun token => ?_
      split
      · have hnext : Local IsLocal (do advance; directives 1 fuel) :=
          local_advance.bind fun _ => hrest 1
        exact .ite (local_fail.bind fun _ => hnext) hnext
      · refine local_advance.bind fun _ => .get_bind fun s hs => ?_
        have hnext {t : Reading} (ht : t.IsLocal) : Local IsLocal (do
            set t
            directives versions fuel) :=
          (Local.set ht).bind fun _ => hrest versions
        exact .ite (local_fail.bind fun _ => hnext hs) (hnext hs)
      · exact local_advance.bind fun _ => hrest versions
      · exact .pure ()

theorem local_skipDocumentEnds : ∀ fuel, Local IsLocal (skipDocumentEnds fuel)
  | 0 => .pure ()
  | fuel + 1 => (local_took _).bind fun _ => .ite (local_skipDocumentEnds fuel) (.pure ())

theorem local_documentStart (fuel : Nat) : Local IsLocal (documentStart fuel) := by
  have hreset : Local IsLocal (modify fun s : Reading => { s with handles := defaultHandles }) :=
    .modify fun _ hs => hs
  refine (local_skipDocumentEnds fuel).bind fun _ => (local_sees _).bind fun _ => ?_
  refine .ite (.pure false) (hreset.bind fun _ => ?_)
  exact (local_directives fuel 0).bind fun _ => (local_expect _).bind fun _ => .pure true

theorem local_markedContent (fuel : Nat) : Local IsLocal (markedContent fuel) :=
  local_peek.bind fun _ => (local_sees _).bind fun _ => .ite local_emptyScalar (local_node _ fuel)

theorem local_marked? (fuel : Nat) : Local IsLocal (marked? fuel) :=
  (local_documentStart fuel).bind fun _ => .ite ((local_markedContent fuel).map _) (.pure none)

theorem local_first? (fuel : Nat) : Local IsLocal (first? fuel) :=
  local_peek.bind fun _ => (local_sees _).bind fun _ =>
    .ite (local_marked? fuel) ((local_node _ fuel).map _)

theorem local_document (fuel : Nat) : Local IsLocal (document fuel) := by
  refine (local_first? fuel).bind fun found => .ite (.pure none) ?_
  exact (local_documentStart fuel).bind fun _ =>
    .ite (local_fail.bind fun _ => .pure found) (.pure found)

end Reader

theorem NodeTable.isLocal_ofTokens {scanned : Scanned}
    (h : ∀ trouble ∈ scanned.trouble, trouble.IsLocal) :
    FailsBy Trouble.IsLocal (ofTokens scanned) := by
  unfold ofTokens
  dsimp only
  have hstart : (Reading.mk scanned.tokens (scanned.trouble.getD .malformed) Reader.defaultHandles
      [] #[]).IsLocal := by
    cases htrouble : scanned.trouble with
    | none => trivial
    | some trouble => exact h trouble htrouble
  have hdocument := (Reader.local_document (3 * scanned.tokens.length + 10)).run hstart
  split
  · exact .ok _
  · rename_i trouble heq
    exact FailsBy.error_iff.2 (hdocument trouble heq)

/-! ## Merging -/

namespace Editor

/-- A table of nodes has no condition. -/
abbrev Free (m : Editor α) : Prop := Local (fun _ => True) m

theorem free_entries (number : Nat) : Free (entries number) := by
  refine .get_bind fun nodes _ => ?_
  split
  · exact .pure _
  · exact .throw trivial

theorem free_merged {flatten : Nat → Editor Unit} (h : ∀ number, Free (flatten number))
    (number : Nat) : Free (merged flatten number) := by
  have hflattened (number : Nat) : Free (do
      let _ ← entries number
      flatten number
      entries number) :=
    (free_entries number).bind fun _ => (h number).bind fun _ => free_entries number
  refine .get_bind fun nodes _ => ?_
  split
  · exact hflattened number
  · exact (Local.mapM hflattened).bind fun _ => .pure _
  · exact .throw trivial

theorem free_flatten : ∀ calls number, Free (flatten calls number)
  | 0, _ => .throw trivial
  | calls + 1, number => by
      refine .get_bind fun nodes _ => (free_entries number).bind fun own => ?_
      split
      · exact .set trivial
      · refine (Local.set trivial).bind fun _ => ?_
        refine (free_merged (free_flatten calls) _).bind fun _ => ?_
        refine (free_flatten calls number).bind fun _ => (free_entries number).bind fun rest => ?_
        exact .modify fun _ _ => trivial

end Editor

theorem NodeTable.isLocal_flatten (nodes : NodeTable) (number : Nat) :
    FailsBy Trouble.IsLocal (nodes.flatten number) :=
  ((Editor.free_flatten _ number).run trivial).map _

end Playbook.Yaml
