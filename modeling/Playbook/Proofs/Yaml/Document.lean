import Playbook.Proofs.Value.Normal
import Playbook.Proofs.Value.Rounding
import Playbook.Proofs.Yaml.Reading
import Playbook.Yaml.Document

/-!
# Values that are read

A text is read into a normal value: its numbers were rounded, and no others
come to be in it. Whatever keeps a text from having a value is a trouble of
the text as well, of its nodes or of a scalar that is not what it should be.
-/

namespace Playbook

/-! ## Decimals -/

namespace Text

theorem canonical_unsignedDecimal? {negative : Bool} {text : List Char} {x : Binary64}
    (h : unsignedDecimal? negative text = some x) : x.Canonical := by
  unfold unsignedDecimal? at h
  dsimp only at h
  split at h
  · cases h
  · obtain ⟨whole, -, h⟩ := Option.bind_eq_some_iff.1 h
    obtain ⟨fraction, -, h⟩ := Option.bind_eq_some_iff.1 h
    split at h <;> obtain ⟨power, -, h⟩ := Option.bind_eq_some_iff.1 h <;> cases h <;>
      exact Binary64.canonical_ofDecimal _ _ _

theorem canonical_unsignedNumber? {mark : String} {negative : Bool} {text : List Char}
    {x : Binary64} (h : unsignedNumber? mark negative text = some x) : x.Canonical := by
  rcases Option.or_eq_some_iff.1 h with h | ⟨-, h⟩
  · unfold namedNumber? at h
    split_ifs at h <;> cases h <;> trivial
  · exact canonical_unsignedDecimal? h

theorem canonical_decimal? {mark : String} {text : List Char} {x : Binary64}
    (h : decimal? mark text = some x) : x.Canonical := by
  unfold decimal? at h
  split at h <;> exact canonical_unsignedNumber? h

end Text

namespace Yaml

variable {α β : Type} {Q : α → Prop} {R : β → Prop}

/-! ## Scalars -/

theorem isLocal_lift {result : Attempt α} (h : FailsBy Fault.IsLocal result) :
    FailsBy Trouble.IsLocal (lift result) := by
  cases result with
  | ok a => exact .ok a
  | error fault => exact FailsBy.error_iff.2 (h fault rfl)

theorem isLocal_readBinary (text : String) : FailsBy Trouble.IsLocal (readBinary text) := by
  unfold readBinary
  split
  · exact FailsBy.error_iff.2 trivial
  · split
    · exact .ok _
    · exact FailsBy.error_iff.2 trivial

theorem isLocal_scalarText (nodes : NodeTable) :
    ∀ steps number, FailsBy Trouble.IsLocal (scalarText nodes steps number)
  | 0, _ => FailsBy.error_iff.2 trivial
  | steps + 1, number => by
      unfold scalarText
      split
      · exact .ok _
      · split
        · exact isLocal_scalarText nodes steps _
        · exact FailsBy.error_iff.2 trivial
      · exact FailsBy.error_iff.2 trivial

namespace Scalar

theorem isLocal_wholeIn (base : Nat) (text : List Char) :
    FailsBy Fault.IsLocal (wholeIn base text) := by
  unfold wholeIn Value.wholeIn
  split
  · exact .ok _
  · exact FailsBy.error_iff.2 rfl
  · exact FailsBy.error_iff.2 rfl

theorem isLocal_readSize (text : List Char) : FailsBy Fault.IsLocal (readSize text) := by
  unfold readSize
  split
  · exact FailsBy.error_iff.2 rfl
  · exact .ok 0
  · exact isLocal_wholeIn _ _
  · exact isLocal_wholeIn _ _
  · exact isLocal_wholeIn _ _
  · split
    · exact (FailsBy.mapM fun _ _ => isLocal_wholeIn _ _).bind fun _ => .ok _
    · exact isLocal_wholeIn _ _

theorem isLocal_readInt (text : String) : FailsBy Fault.IsLocal (readInt text) :=
  (isLocal_readSize _).bind fun _ => .ok _

theorem isLocal_decimal (mark : String) (text : List Char) :
    FailsBy Fault.IsLocal (decimal mark text) := by
  unfold decimal
  split
  · exact .ok _
  · exact FailsBy.error_iff.2 rfl

theorem isLocal_sexagesimalSum (mark : String) :
    ∀ parts sum unit, FailsBy Fault.IsLocal (sexagesimalSum mark sum unit parts)
  | [], _, _ => .ok _
  | part :: parts, sum, unit => by
      unfold sexagesimalSum
      split
      · exact FailsBy.error_iff.2 rfl
      · exact isLocal_sexagesimalSum mark parts _ _

theorem isLocal_readFloat (mark text : String) : FailsBy Fault.IsLocal (readFloat mark text) := by
  unfold readFloat
  dsimp only
  split
  · exact FailsBy.error_iff.2 rfl
  · split
    · exact .ok _
    · split
      · exact .ok _
      · split
        · refine (FailsBy.mapM fun _ _ => isLocal_decimal _ _).bind fun parts => ?_
          exact (isLocal_sexagesimalSum _ _ _ _).bind fun _ => .ok _
        · exact (isLocal_decimal _ _).bind fun _ => .ok _

theorem isLocal_readTruth (text : String) : FailsBy Fault.IsLocal (readTruth text) := by
  unfold readTruth
  split
  · exact .ok _
  · exact FailsBy.error_iff.2 rfl

theorem isLocal_checked (problem : Option String) (v : Value) :
    FailsBy Fault.IsLocal (checked problem v) := by
  unfold checked
  split
  · exact .ok _
  · exact FailsBy.error_iff.2 rfl

theorem isLocal_readTimestamp (text : String) : FailsBy Fault.IsLocal (readTimestamp text) := by
  unfold readTimestamp
  split
  · exact FailsBy.error_iff.2 rfl
  · dsimp only
    split <;> exact isLocal_checked _ _

end Scalar

theorem isLocal_scalarValue (nodes : NodeTable) (mark : String) (number : Nat) :
    FailsBy Trouble.IsLocal (scalarValue nodes mark number) := by
  have htext : FailsBy Trouble.IsLocal (scalarText nodes (nodes.size + 1) number) :=
    isLocal_scalarText _ _ _
  refine .ite (htext.bind fun _ => .ok _) (.ite (htext.bind fun _ => .ok _) ?_)
  refine .ite (htext.bind fun _ => isLocal_lift (Scalar.isLocal_readTruth _)) ?_
  refine .ite (htext.bind fun _ => isLocal_lift (Scalar.isLocal_readInt _)) ?_
  refine .ite (htext.bind fun _ => isLocal_lift (Scalar.isLocal_readFloat _ _)) ?_
  refine .ite (htext.bind fun stamp => .ite ?_ (FailsBy.error_iff.2 rfl)) ?_
  · exact isLocal_lift (Scalar.isLocal_readTimestamp stamp)
  · exact .ite (htext.bind fun _ => isLocal_readBinary _) (FailsBy.error_iff.2 trivial)

/-! ## Numbers of scalars -/

namespace Scalar

theorem canonical_decimal {mark : String} {text : List Char} {x : Binary64}
    (h : decimal mark text = .ok x) : x.Canonical := by
  unfold decimal at h
  split at h
  · cases h
    exact Text.canonical_decimal? ‹_›
  · cases h

theorem canonical_sexagesimalSum {mark : String} {x : Binary64} :
    ∀ {parts sum unit}, sum.Canonical → sexagesimalSum mark sum unit parts = .ok x → x.Canonical
  | [], sum, _, hsum, h => by
      cases h
      exact hsum
  | part :: parts, sum, unit, _, h => by
      unfold sexagesimalSum at h
      split at h
      · cases h
      · exact canonical_sexagesimalSum (Binary64.canonical_add _ _ _) h

theorem normal_readFloat {mark text : String} {v : Value} (h : readFloat mark text = .ok v) :
    v.Normal := by
  have hsigned (size : Binary64) (hsize : size.Canonical) (negative : Bool) :
      (Value.float (if negative then size.negate else size)).Normal := by
    cases negative
    · exact hsize
    · exact hsize.negate
  unfold readFloat at h
  dsimp only at h
  split at h
  · cases h
  · split at h
    · cases h
      exact hsigned (.infinity false) trivial _
    · split at h
      · cases h
        exact hsigned plainNan trivial _
      · split at h
        · obtain ⟨parts, -, h⟩ := Attempt.of_bind_ok h
          obtain ⟨size, hsize, h⟩ := Attempt.of_bind_ok h
          cases h
          exact hsigned size (canonical_sexagesimalSum (Binary64.canonical_zero _) hsize) _
        · obtain ⟨size, hsize, h⟩ := Attempt.of_bind_ok h
          cases h
          exact hsigned size (canonical_decimal hsize) _

theorem normal_readTruth {text : String} {v : Value} (h : readTruth text = .ok v) : v.Normal := by
  unfold readTruth at h
  split at h <;> cases h
  trivial

theorem normal_readInt {text : String} {v : Value} (h : readInt text = .ok v) : v.Normal := by
  obtain ⟨size, -, h⟩ := Attempt.of_bind_ok h
  cases h
  trivial

theorem normal_readTimestamp {text : String} {v : Value} (h : readTimestamp text = .ok v) :
    v.Normal := by
  have hchecked {problem : Option String} (whole : Value) (hwhole : whole.Normal)
      (h : checked problem whole = .ok v) : v.Normal := by
    unfold checked at h
    split at h <;> cases h
    exact hwhole
  unfold readTimestamp at h
  split at h
  · cases h
  · dsimp only at h
    split at h
    · exact hchecked (.day _) trivial h
    · exact hchecked (.instant _) trivial h

end Scalar

theorem of_bind_ok {first : Result α} {next : α → Result β} {b : β}
    (h : (first >>= next) = .ok b) : ∃ a, first = .ok a ∧ next a = .ok b := by
  cases first with
  | error trouble => cases h
  | ok a => exact ⟨a, rfl, h⟩

theorem of_lift_ok {result : Attempt α} {a : α} (h : lift result = .ok a) :
    result = .ok a := by
  cases result <;> cases h
  rfl

theorem normal_readBinary {text : String} {v : Value} (h : readBinary text = .ok v) :
    v.Normal := by
  unfold readBinary at h
  split at h
  · cases h
  · split at h <;> cases h
    trivial

theorem normal_scalarValue {nodes : NodeTable} {mark : String} {number : Nat} {v : Value}
    (h : scalarValue nodes mark number = .ok v) : v.Normal := by
  have hread {next : String → Result Value} (hnext : ∀ s, next s = .ok v → v.Normal)
      (h : (scalarText nodes (nodes.size + 1) number >>= next) = .ok v) : v.Normal := by
    obtain ⟨s, -, h⟩ := of_bind_ok h
    exact hnext s h
  unfold scalarValue at h
  dsimp only at h
  split_ifs at h
  · exact hread (fun s hs => by cases hs; trivial) h
  · exact hread (fun s hs => by cases hs; trivial) h
  · exact hread (fun s hs => Scalar.normal_readTruth (of_lift_ok hs)) h
  · exact hread (fun s hs => Scalar.normal_readInt (of_lift_ok hs)) h
  · exact hread (fun s hs => Scalar.normal_readFloat (of_lift_ok hs)) h
  · exact hread (fun s hs => Scalar.normal_readTimestamp (of_lift_ok hs)) h
  · exact hread (fun s hs => by cases hs) h
  · exact hread (fun s hs => normal_readBinary hs) h

/-! ## Containers -/

def Part.Normal : Part → Prop
  | .complete v => v.Normal
  | .container _ => True

def Container.Normal : Container → Prop
  | .list items | .tuple items => ∀ part ∈ items, part.Normal
  | .set members => ∀ v ∈ members, v.Normal
  | .mapping entries => ∀ entry ∈ entries, entry.1.Normal ∧ entry.2.Normal

theorem ContainerKind.normal_start (kind : ContainerKind) : kind.start.Normal := by
  cases kind <;> exact fun _ h => absurd h List.not_mem_nil

/-- What is complete is normal, alone and as a part of a container. -/
structure Assembly.Normal (s : Assembly) : Prop where
  parts : ∀ part, some part ∈ s.parts → part.Normal
  containers : ∀ container ∈ s.containers, container.Normal

namespace Assembler

open Assembly (Normal)

theorem meets_addContainer {container : Container} (h : container.Normal) :
    Meets Normal (fun _ => True) (addContainer container) := by
  refine .get_bind fun s hs => (Meets.set ⟨hs.parts, fun other hother => ?_⟩).bind
    fun _ _ => .pure trivial
  rcases Array.mem_push.1 hother with hother | rfl
  · exact hs.containers other hother
  · exact h

theorem meets_setContainer (number : Nat) {container : Container} (h : container.Normal) :
    Meets Normal (fun _ => True) (setContainer number container) := by
  refine .modify fun s hs => ⟨hs.parts, fun other hother => ?_⟩
  rcases Array.mem_or_eq_of_mem_setIfInBounds hother with hother | rfl
  · exact hs.containers other hother
  · exact h

theorem meets_part (mark : String) (node : Nat) : Meets Normal Part.Normal (part mark node) := by
  have hrest (made : Part) (hmade : made.Normal) : Meets Normal Part.Normal (do
      modify fun s => { s with parts := s.parts.setIfInBounds node (some made) }
      return made) := by
    refine Meets.bind (.modify fun s hs => ⟨fun other hother => ?_, hs.containers⟩)
      fun _ _ => .pure hmade
    rcases Array.mem_or_eq_of_mem_setIfInBounds hother with hother | hother
    · exact hs.parts other hother
    · exact Option.some.inj hother ▸ hmade
  refine .get_bind fun s hs => ?_
  split
  · rename_i found hfound
    exact .pure (hs.parts found (Array.mem_of_getElem? hfound))
  · dsimp only
    split
    · refine (meets_addContainer (ContainerKind.normal_start _)).bind fun number _ => ?_
      refine (Meets.modify fun t ht => ⟨ht.parts, ht.containers⟩).bind fun _ _ => ?_
      exact Meets.bind (Q := Part.Normal) (.pure trivial) hrest
    · have hvalue (own : String) :
          Meets Normal Value.Normal (ofResult (scalarValue s.nodes own node)) :=
        .lift (isLocal_scalarValue _ _ _) fun _ => normal_scalarValue
      have hcomplete (own : String) : Meets Normal Part.Normal
          (Part.complete <$> ofResult (scalarValue s.nodes own node)) :=
        (hvalue own).map fun _ h => h
      exact (hcomplete _).bind hrest

theorem normal_insertPart {entries : List (Value × Part)} {key : Value} {part : Part}
    (h : (Container.mapping entries).Normal) (hkey : key.Normal) (hpart : part.Normal) :
    (Container.mapping (insertPart entries key part)).Normal := by
  induction entries with
  | nil => exact List.forall_mem_singleton.2 ⟨hkey, hpart⟩
  | cons entry entries ih =>
      obtain ⟨hentry, hentries⟩ := List.forall_mem_cons.1 h
      unfold insertPart
      split
      · exact List.forall_mem_cons.2 ⟨⟨hentry.1, hpart⟩, hentries⟩
      · exact List.forall_mem_cons.2 ⟨hentry, ih hentries⟩

theorem meets_keyPart (mark : String) (node : Nat) :
    Meets Normal Value.Normal (keyPart mark node) := by
  refine (meets_part mark node).bind fun found hfound => ?_
  split
  · exact .pure hfound
  · exact .throw trivial

theorem meets_listItems (mark : String) (node : Nat) :
    Meets Normal (fun items => (Container.list items).Normal) (listItems mark node) := by
  refine .get_bind fun s _ => ?_
  split
  · exact .mapM (meets_part mark)
  · exact .throw trivial

theorem meets_mappingEntries (mark : String) (node : Nat) :
    Meets Normal (fun entries => (Container.mapping entries).Normal)
      (mappingEntries mark node) := by
  refine .get_bind fun s _ => ?_
  refine (Meets.lift (Q := fun _ => True) (s.nodes.isLocal_flatten node) fun _ _ => trivial).bind
    fun nodes _ => ?_
  refine (Meets.modify fun t ht => ⟨ht.parts, ht.containers⟩).bind fun _ _ => ?_
  refine .foldlM (fun entries entry hentries => ?_) fun _ h => absurd h List.not_mem_nil
  exact (meets_keyPart mark _).bind fun key hkey => (meets_part mark _).bind fun part hpart =>
    .pure (normal_insertPart hentries hkey hpart)

theorem meets_pairItem (mark : String) (node : Nat) :
    Meets Normal Part.Normal (pairItem mark node) := by
  refine .get_bind fun s _ => ?_
  split
  · refine (meets_part mark _).bind fun first hfirst => ?_
    refine (meets_part mark _).bind fun second hsecond => ?_
    have hpair : (Container.tuple [first, second]).Normal :=
      List.forall_mem_cons.2 ⟨hfirst, List.forall_mem_singleton.2 hsecond⟩
    exact (meets_addContainer hpair).bind fun _ _ => .pure trivial
  · exact .throw trivial

theorem meets_pairItems (mark : String) (node : Nat) :
    Meets Normal (fun items => (Container.list items).Normal) (pairItems mark node) := by
  refine .get_bind fun s _ => ?_
  split
  · exact .mapM (meets_pairItem mark)
  · exact .throw trivial

theorem meets_fill (mark : String) (filling : Filling) :
    Meets Normal (fun _ => True) (fill mark filling) := by
  have hrest (content : Container) (h : content.Normal) :
      Meets Normal (fun _ => True) (setContainer filling.container content) :=
    meets_setContainer _ h
  unfold fill
  split
  · exact ((meets_listItems mark _).map fun _ h => h).bind hrest
  · exact ((meets_pairItems mark _).map fun _ h => h).bind hrest
  · refine (meets_mappingEntries mark _).bind fun entries hentries => ?_
    refine Meets.bind (Q := Container.Normal) (.pure fun v hv => ?_) hrest
    obtain ⟨entry, hentry, rfl⟩ := List.mem_map.1 (Value.mem_of_mem_arranged hv)
    exact (hentries entry hentry).1
  · exact ((meets_mappingEntries mark _).map fun _ h => h).bind hrest

theorem meets_fillFrom (mark : String) :
    ∀ steps place, Meets Normal (fun _ => True) (fillFrom mark place steps)
  | 0, _ => .pure trivial
  | steps + 1, place => by
      refine .get_bind fun s _ => ?_
      split
      · exact .pure trivial
      · exact (meets_fill mark _).bind fun _ _ => meets_fillFrom mark steps (place + 1)

end Assembler

/-! ## Values of containers -/

def Finished.Normal (finished : Finished) : Prop :=
  ∀ v, some v ∈ finished → v.Normal

/-- What is given and what is finished is normal. -/
def Finishes (m : StateM Finished α) (Q : α → Prop) : Prop :=
  ∀ s : Finished, s.Normal → Q (m.run s).1 ∧ (m.run s).2.Normal

namespace Finishes

theorem pure {a : α} (h : Q a) : Finishes (Pure.pure a) Q := fun _ hs => ⟨h, hs⟩

theorem bind {m : StateM Finished α} {next : α → StateM Finished β} (h : Finishes m Q)
    (hnext : ∀ a, Q a → Finishes (next a) R) : Finishes (m >>= next) R :=
  fun s hs => hnext _ (h s hs).1 _ (h s hs).2

theorem mono {m : StateM Finished α} {Q' : α → Prop} (h : Finishes m Q)
    (himp : ∀ a, Q a → Q' a) : Finishes m Q' :=
  fun s hs => (h s hs).imp_left (himp _)

theorem get_bind {next : Finished → StateM Finished β}
    (h : ∀ s : Finished, s.Normal → Finishes (next s) R) :
    Finishes (MonadState.get >>= next) R :=
  fun s hs => h s hs s hs

theorem ite {p : Prop} [Decidable p] {m other : StateM Finished α} (h : Finishes m Q)
    (h' : Finishes other Q) : Finishes (if p then m else other) Q := by
  split
  · exact h
  · exact h'

theorem mapM {l : List α} {f : α → StateM Finished β} (h : ∀ a ∈ l, Finishes (f a) R) :
    Finishes (l.mapM f) fun bs => ∀ b ∈ bs, R b := by
  induction l with
  | nil => exact pure fun _ hb => absurd hb List.not_mem_nil
  | cons a l ih =>
      rw [List.mapM_cons]
      refine (h a List.mem_cons_self).bind fun b hb => ?_
      exact (ih fun other hother => h other (List.mem_cons_of_mem _ hother)).bind
        fun rest hrest => pure (List.forall_mem_cons.2 ⟨hb, hrest⟩)

end Finishes

theorem finishes_closed (number : Nat) (content : Value) (h : content.Normal)
    (mentioned : List Nat) :
    Finishes (closed number content mentioned) fun found => found.value.Normal := by
  refine .ite (Finishes.bind (Q := fun _ => True) (fun s hs => ⟨trivial, fun v hv => ?_⟩)
    fun _ _ => .pure h) (.pure h)
  rcases Array.mem_or_eq_of_mem_setIfInBounds hv with hv | hv
  · exact hs v hv
  · exact Option.some.inj hv ▸ h

theorem finishes_valueOf {containers : Array Container}
    (hcontainers : ∀ container ∈ containers, container.Normal) :
    ∀ (steps : Nat) (around : List Nat) (part : Part), part.Normal →
      Finishes (valueOf containers around steps part) fun found => found.value.Normal
  | 0, _, .complete v, h | _ + 1, _, .complete v, h => .pure h
  | 0, _, .container number, _ => .pure trivial
  | steps + 1, around, .container number, _ => by
      have hinside := finishes_valueOf hcontainers steps (number :: around)
      refine .ite (.pure trivial) (.get_bind fun finished hfinished => ?_)
      split
      · rename_i v hv
        exact .pure (hfinished v (Array.mem_of_getElem? hv))
      · have hitems {items : List Part} (h : ∀ part ∈ items, part.Normal) :
            Finishes (items.mapM (valueOf containers (number :: around) steps)) fun found =>
              Value.AllNormal (found.map (·.value)) := by
          have hfound := Finishes.mapM fun part hpart => hinside part (h part hpart)
          exact hfound.mono fun found h => Value.allNormal_iff.2 (List.forall_mem_map.2 h)
        have hmapping {entries : List (Value × Part)}
            (h : ∀ entry ∈ entries, entry.1.Normal ∧ entry.2.Normal) :
            Finishes (entries.mapM fun e => do
                return (e.1, ← valueOf containers (number :: around) steps e.2)) fun found =>
              Value.EntriesNormal (found.map fun e => (e.1, e.2.value)) := by
          have hfound := Finishes.mapM (R := fun e => e.1.Normal ∧ e.2.value.Normal)
            fun entry hentry => (hinside entry.2 (h entry hentry).2).bind fun found hfound =>
              Finishes.pure (a := (entry.1, found)) ⟨(h entry hentry).1, hfound⟩
          exact hfound.mono fun found h => Value.entriesNormal_iff.2 (List.forall_mem_map.2 h)
        dsimp only
        split
        · rename_i hcontainer
          exact (hitems (hcontainers _ (Array.mem_of_getElem? hcontainer))).bind fun found h =>
            finishes_closed number (.list _) h _
        · rename_i hcontainer
          exact (hitems (hcontainers _ (Array.mem_of_getElem? hcontainer))).bind fun found h =>
            finishes_closed number (.tuple _) h _
        · rename_i hcontainer
          exact (hmapping (hcontainers _ (Array.mem_of_getElem? hcontainer))).bind fun found h =>
            finishes_closed number (.mapping _) h _
        · rename_i hcontainer
          exact finishes_closed number (.set _)
            (Value.allNormal_iff.2 (hcontainers _ (Array.mem_of_getElem? hcontainer))) _
        · exact .pure trivial

/-! ## Documents -/

theorem Assembler.meets_whole (mark : String) (outermost steps : Nat) :
    Meets Assembly.Normal Part.Normal (do
      let part ← part mark outermost
      fillFrom mark 0 steps
      return part) :=
  (meets_part mark outermost).bind fun _ hpart => (meets_fillFrom mark steps 0).bind
    fun _ _ => .pure hpart

theorem Assembly.normal_start (nodes : NodeTable) :
    Assembly.Normal ⟨nodes, Array.replicate nodes.size none, #[], #[]⟩ := by
  refine ⟨fun part h => ?_, fun container h => absurd h (Array.not_mem_empty _)⟩
  cases (Array.mem_replicate.1 h).2

theorem Finished.normal_start (size : Nat) : Finished.Normal (Array.replicate size none) := by
  intro v h
  cases (Array.mem_replicate.1 h).2

theorem NodeTable.isLocal_value (nodes : NodeTable) (mark : String) (outermost : Nat) :
    FailsBy Trouble.IsLocal (nodes.value mark outermost) :=
  (Assembler.meets_whole mark outermost _ _ (Assembly.normal_start nodes)).1.bind fun _ => .ok _

theorem NodeTable.normal_value {nodes : NodeTable} {mark : String} {outermost : Nat} {v : Value}
    (h : nodes.value mark outermost = .ok v) : v.Normal := by
  have hmeets := (Assembler.meets_whole mark outermost (nodes.size + 1) _
    (Assembly.normal_start nodes)).2
  unfold NodeTable.value at h
  obtain ⟨⟨part, s⟩, hrun, h⟩ := of_bind_ok h
  cases h
  obtain ⟨hs, hpart⟩ := hmeets part s hrun
  exact (finishes_valueOf hs.containers _ [] part hpart _ (Finished.normal_start _)).1

/-- A text that cannot be read is in trouble of its own. -/
theorem isLocal_read {source : Source} (h : ∀ trouble ∈ source.stop, trouble.IsLocal)
    (mark : String) : FailsBy Trouble.IsLocal (read mark source) := by
  refine (NodeTable.isLocal_ofTokens (Token.isLocal_scan h)).bind fun found => ?_
  split
  · exact .ok _
  · exact NodeTable.isLocal_value _ _ _

/-- What is read from a text has its numbers in their usual form. -/
theorem normal_read {mark : String} {source : Source} {v : Value}
    (h : read mark source = .ok v) : v.Normal := by
  obtain ⟨found, -, h⟩ := of_bind_ok h
  split at h
  · cases h
    trivial
  · exact NodeTable.normal_value h

end Yaml

end Playbook
