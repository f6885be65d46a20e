import Playbook.Proofs.Faults
import Playbook.Yaml.Token

/-!
# Troubles of scanning

Whatever keeps a text from being cut into tokens is a trouble of the text: no
manifest is missed by it, and none is refused.
-/

namespace Playbook

namespace Yaml

def Trouble.IsLocal : Trouble → Prop
  | .malformed => True
  | .fault f => f.IsLocal

namespace Scanner

variable {α β : Type} {m : Scanner α} {rest : α → Scanner β}

/-- Where the scanner fails, it is by a trouble of the text. -/
def Local (m : Scanner α) : Prop := ∀ s, FailsBy Trouble.IsLocal (m.run s).1

namespace Local

theorem pure (a : α) : Local (Pure.pure a) := fun _ => .ok a

theorem fail : Local (fail : Scanner α) := fun _ => FailsBy.error_iff.2 trivial

theorem get : Local get := fun s => .ok s

theorem modify (f : Scan → Scan) : Local (modify f) := fun _ => .ok _

theorem run_bind (m : Scanner α) (rest : α → Scanner β) (s : Scan) :
    (m >>= rest).run s = match m.run s with
      | (.ok a, t) => (rest a).run t
      | (.error trouble, t) => (.error trouble, t) := by
  rw [ExceptT.run_bind]
  rcases hrun : m.run s with ⟨trouble | a, t⟩
  · simp only [Bind.bind, StateT.bind, hrun]
    rfl
  · simp only [Bind.bind, StateT.bind, hrun]

theorem bind (h : Local m) (hrest : ∀ a, Local (rest a)) : Local (m >>= rest) := by
  intro s
  have hm := h s
  rw [run_bind]
  rcases hrun : m.run s with ⟨trouble | a, t⟩
  · rw [hrun] at hm
    exact FailsBy.error_iff.2 (hm trouble rfl)
  · exact hrest a t

theorem ite {p : Prop} [Decidable p] {other : Scanner α} (h : Local m) (h' : Local other) :
    Local (if p then m else other) := by
  split
  · exact h
  · exact h'

theorem require (holds : Bool) : Local (require holds) := ite (pure ()) fail

end Local

/-! ## Steps of the cursor -/

theorem local_cursor : Local cursor := Local.get.bind fun _ => .pure _

theorem local_moveTo (c : Cursor) : Local (moveTo c) := .modify _

theorem local_forward (n : Nat) : Local (forward n) := .modify _

theorem local_inFlow : Local inFlow := Local.get.bind fun _ => .pure _

theorem local_emit (token : Token) : Local (emit token) := .modify _

theorem local_insert (place : Nat) (token : Token) : Local (insert place token) := .modify _

theorem local_allowKey (allowed : Bool) : Local (allowKey allowed) := .modify _

/-! ## Possible keys and indentation -/

theorem local_dropStaleKeys : Local dropStaleKeys :=
  Local.get.bind fun _ => (Local.require _).bind fun _ => .modify _

theorem local_removeKey : Local removeKey := by
  refine Local.get.bind fun s => ?_
  split
  · exact .pure ()
  · exact (Local.require _).bind fun _ => .modify _

theorem local_saveKey : Local saveKey :=
  Local.get.bind fun _ => .ite (local_removeKey.bind fun _ => .modify _) (.pure ())

theorem local_unwind (column : Int) : Local (unwind column) := .modify _

theorem local_addIndent (column : Int) : Local (addIndent column) :=
  Local.get.bind fun _ => .ite ((Local.modify _).bind fun _ => .pure _) (.pure _)

/-! ## Space and directives -/

theorem local_skipToToken : ∀ fuel, Local (skipToToken fuel)
  | 0 => .pure ()
  | fuel + 1 => by
      refine local_cursor.bind fun c => ?_
      dsimp only
      split
      · exact local_moveTo _
      · refine (local_moveTo _).bind fun _ => local_inFlow.bind fun _ => ?_
        have hrest := local_skipToToken fuel
        exact .ite ((local_allowKey _).bind fun _ => hrest) hrest

theorem local_skipRestOfLine : Local skipRestOfLine := by
  refine local_cursor.bind fun c => (Local.require _).bind fun _ => ?_
  split <;> exact local_moveTo _

theorem local_word (p : Char → Bool) : Local (word p) :=
  local_cursor.bind fun _ => (Local.require _).bind fun _ => (local_moveTo _).bind fun _ => .pure _

theorem local_uri : Local uri := by
  refine (local_word _).bind fun text => ?_
  dsimp only
  split
  · exact .pure _
  · exact .fail

theorem local_spaces : Local spaces := local_cursor.bind fun _ => local_moveTo _

theorem local_tagHandle : Local tagHandle := by
  refine local_cursor.bind fun _ => (Local.require _).bind fun _ => local_cursor.bind fun _ => ?_
  refine .ite ((local_moveTo _).bind fun _ => .pure _) ?_
  exact (Local.require _).bind fun _ => (local_moveTo _).bind fun _ => .pure _

theorem local_versionPart : Local versionPart := by
  refine (local_word _).bind fun digits => .ite (Local.bind ?_ fun _ => .pure _) (.pure _)
  exact fun _ => FailsBy.error_iff.2 rfl

theorem local_directive : Local directive := by
  have hrest : Local skipRestOfLine := local_skipRestOfLine
  refine (local_forward _).bind fun _ => (local_word _).bind fun name => ?_
  refine local_cursor.bind fun _ => (Local.require _).bind fun _ => .ite ?_ (.ite ?_ ?_)
  · refine local_spaces.bind fun _ => local_versionPart.bind fun major => ?_
    refine local_cursor.bind fun _ => (Local.require _).bind fun _ => ?_
    refine (local_forward _).bind fun _ => local_versionPart.bind fun _ => ?_
    refine local_cursor.bind fun _ => (Local.require _).bind fun _ => ?_
    exact (local_emit _).bind fun _ => hrest
  · refine local_spaces.bind fun _ => local_tagHandle.bind fun handle => ?_
    refine local_cursor.bind fun _ => (Local.require _).bind fun _ => ?_
    refine local_spaces.bind fun _ => local_uri.bind fun beginning => ?_
    refine local_cursor.bind fun _ => (Local.require _).bind fun _ => ?_
    exact (local_emit _).bind fun _ => hrest
  · refine local_cursor.bind fun _ => (local_moveTo _).bind fun _ => ?_
    exact (local_emit _).bind fun _ => hrest

/-! ## Anchors and tags -/

theorem local_anchorName : Local anchorName := by
  refine (local_forward _).bind fun _ => (local_word _).bind fun name => ?_
  exact local_cursor.bind fun _ => (Local.require _).bind fun _ => .pure _

theorem local_tag : Local tag := by
  have hrest (found : Option String × String) : Local (do
      require ((← cursor).endsOr 0 isSpace)
      emit (.tag found.1 found.2)) :=
    local_cursor.bind fun _ => (Local.require _).bind fun _ => local_emit _
  refine local_cursor.bind fun c => .ite ?_ (.ite ?_ ?_)
  · refine (local_forward _).bind fun _ => local_uri.bind fun suffix => ?_
    refine local_cursor.bind fun _ => (Local.require _).bind fun _ => ?_
    exact (local_forward _).bind fun _ => hrest _
  · exact (local_forward _).bind fun _ => hrest _
  · refine .ite (local_tagHandle.bind fun handle => ?_) ((local_forward _).bind fun _ => ?_)
    all_goals exact local_uri.bind fun suffix => hrest _

/-! ## Block scalars -/

theorem local_take {α : Type} (read : Char → Option α) : Local (take read) := by
  refine local_cursor.bind fun c => ?_
  split
  · exact (local_forward _).bind fun _ => .pure _
  · exact .pure none

theorem local_blockHeader : Local blockHeader := by
  have hrest (keep : Option Bool) (increment : Option Nat) : Local (do
      require ((← cursor).endsOr 0 isSpace)
      return (⟨keep, increment⟩ : BlockHeader)) :=
    local_cursor.bind fun _ => (Local.require _).bind fun _ => .pure _
  refine (local_take _).bind fun first => (local_take _).bind fun increment => ?_
  refine (Local.require _).bind fun _ => .ite (hrest _ _) (.ite ?_ (hrest _ _))
  exact (local_take _).bind fun keep => hrest _ _

theorem local_leadingBreaks : ∀ fuel breaks deepest, Local (leadingBreaks breaks deepest fuel)
  | 0, _, _ => .pure _
  | fuel + 1, breaks, deepest => by
      refine local_cursor.bind fun c => local_cursor.bind fun c' => ?_
      dsimp only
      split
      · exact (local_moveTo _).bind fun _ => .pure _
      · exact (local_moveTo _).bind fun _ => local_leadingBreaks fuel _ _

theorem local_emptyLines (indent : Nat) : ∀ fuel breaks, Local (emptyLines indent breaks fuel)
  | 0, _ => .pure _
  | fuel + 1, breaks => by
      refine local_cursor.bind fun c => ?_
      dsimp only
      split
      · exact (local_moveTo _).bind fun _ => .pure _
      · exact (local_moveTo _).bind fun _ => local_emptyLines indent fuel _

theorem local_blockLines (folded : Bool) (header : BlockHeader) (indent : Nat) :
    ∀ fuel pieces breaks lastBreak,
      Local (blockLines folded header indent pieces breaks lastBreak fuel)
  | 0, _, _, _ => .pure _
  | fuel + 1, pieces, breaks, lastBreak => by
      refine local_cursor.bind fun c => .ite (.pure _) ?_
      refine (local_moveTo _).bind fun _ => (local_emptyLines _ _ _).bind fun breaks => ?_
      exact local_cursor.bind fun c =>
        .ite (local_blockLines folded header indent fuel _ _ _) (.pure _)

theorem local_blockScalar (folded : Bool) : Local (blockScalar folded) := by
  have hrest (header : BlockHeader) (indent : Nat) (breaks : List Char) (fuel : Nat) : Local (do
      let text ← blockLines folded header indent [] breaks [] fuel
      emit (.scalar (String.ofList text) false)) :=
    (local_blockLines _ _ _ _ _ _ _).bind fun _ => local_emit _
  refine (local_forward _).bind fun _ => local_blockHeader.bind fun header => ?_
  refine local_skipRestOfLine.bind fun _ => Local.get.bind fun s => ?_
  refine local_cursor.bind fun c => ?_
  dsimp only
  split
  · exact (local_leadingBreaks _ _ _).bind fun found => (Local.pure _).bind fun _ => hrest _ _ _ _
  · exact (local_emptyLines _ _ _).bind fun breaks => (Local.pure _).bind fun _ => hrest _ _ _ _

/-! ## Quoted scalars -/

theorem local_quotedBreaks : ∀ fuel breaks, Local (quotedBreaks breaks fuel)
  | 0, _ => .pure _
  | fuel + 1, breaks => by
      refine local_cursor.bind fun c => (Local.require _).bind fun _ => ?_
      refine local_cursor.bind fun c => ?_
      dsimp only
      split
      · exact (local_moveTo _).bind fun _ => .pure _
      · exact (local_moveTo _).bind fun _ => local_quotedBreaks fuel _

theorem local_quotedSpaces (fuel : Nat) : Local (quotedSpaces fuel) := by
  refine local_cursor.bind fun c => (Local.require _).bind fun _ => ?_
  split
  · exact (local_moveTo _).bind fun _ => .pure _
  · exact (local_moveTo _).bind fun _ => (local_quotedBreaks _ _).bind fun _ => .pure _

theorem isLocal_coded (code : Nat) (rest : List Char) :
    FailsBy Trouble.IsLocal (coded code rest) := by
  unfold coded
  split
  · exact FailsBy.error_iff.2 rfl
  · split
    · exact FailsBy.error_iff.2 rfl
    · split
      · split
        · split <;> exact .ok _
        · exact .ok _
      · exact .ok _

theorem local_escaped (fuel : Nat) : Local (escaped fuel) := by
  refine (local_forward _).bind fun _ => local_cursor.bind fun c => ?_
  split
  · exact .fail
  · split
    · exact (local_forward _).bind fun _ => .pure _
    · split
      · exact .fail
      · refine Local.bind (fun _ => isLocal_coded _ _) fun found => ?_
        exact (local_forward _).bind fun _ => .pure _
    · split
      · exact .fail
      · exact (local_moveTo _).bind fun _ => local_quotedBreaks _ _

theorem local_quotedText (double : Bool) : ∀ fuel pieces, Local (quotedText double pieces fuel)
  | 0, _ => .fail
  | fuel + 1, pieces => by
      have hrest := local_quotedText double fuel
      refine local_cursor.bind fun c => (local_moveTo _).bind fun _ => ?_
      split
      · exact .fail
      · refine .ite (.ite ?_ ?_) (.ite ?_ (.ite ?_ ?_))
        · exact (local_forward _).bind fun _ => hrest _
        · exact (local_forward _).bind fun _ => .pure _
        · exact (local_escaped _).bind fun _ => hrest _
        · exact (local_quotedSpaces _).bind fun _ => hrest _
        · exact (local_forward _).bind fun _ => hrest _

theorem local_quotedScalar (double : Bool) : Local (quotedScalar double) := by
  refine (local_forward _).bind fun _ => local_cursor.bind fun c => ?_
  exact (local_quotedText _ _ _).bind fun text => local_emit _

/-! ## Plain scalars -/

theorem local_plainBreaks : ∀ fuel breaks, Local (plainBreaks breaks fuel)
  | 0, _ => .pure _
  | fuel + 1, breaks => by
      refine local_cursor.bind fun c => ?_
      dsimp only
      split
      · exact (local_moveTo _).bind fun _ => .pure _
      · exact (local_moveTo _).bind fun _ => .ite (.pure _) (local_plainBreaks fuel _)

theorem local_plainSpaces (fuel : Nat) : Local (plainSpaces fuel) := by
  refine local_cursor.bind fun c => ?_
  dsimp only
  split
  · exact (local_moveTo _).bind fun _ => .pure _
  · refine (local_moveTo _).bind fun _ => (local_allowKey _).bind fun _ => .ite (.pure _) ?_
    refine (local_plainBreaks _ _).bind fun found => ?_
    split <;> exact .pure _

theorem local_plainText (indent : Int) :
    ∀ fuel pieces gap, Local (plainText indent pieces gap fuel)
  | 0, _, _ => .pure _
  | fuel + 1, pieces, gap => by
      refine local_cursor.bind fun c => local_inFlow.bind fun inFlow => .ite (.pure _) ?_
      refine (local_allowKey _).bind fun _ => (local_moveTo _).bind fun _ => ?_
      refine (local_plainSpaces _).bind fun found => ?_
      split
      · exact .pure _
      · exact local_cursor.bind fun c => .ite (.pure _) (local_plainText indent fuel _ _)

theorem local_plainScalar : Local plainScalar := by
  refine Local.get.bind fun s => local_cursor.bind fun c => ?_
  exact (local_plainText _ _ _ _).bind fun text => local_emit _

/-! ## One token after the other -/

theorem local_beginLine : Local beginLine :=
  (local_unwind _).bind fun _ => local_removeKey.bind fun _ => local_allowKey _

theorem local_border (token : Token) : Local (border token) :=
  local_beginLine.bind fun _ => (local_forward _).bind fun _ => local_emit _

theorem local_openFlow (token : Token) : Local (openFlow token) :=
  local_saveKey.bind fun _ => (Local.modify _).bind fun _ => (local_forward _).bind fun _ =>
    local_emit _

theorem local_closeFlow (token : Token) : Local (closeFlow token) :=
  local_removeKey.bind fun _ => local_inFlow.bind fun _ => (Local.require _).bind fun _ =>
    (Local.modify _).bind fun _ => (local_forward _).bind fun _ => local_emit _

/-- An indicator is passed over and becomes a token. -/
theorem local_passed (token : Token) : Local (do removeKey; forward 1; emit token) :=
  local_removeKey.bind fun _ => (local_forward _).bind fun _ => local_emit _

theorem local_nextFlow : Local nextFlow := (local_allowKey _).bind fun _ => local_passed _

theorem local_openBlock (token : Token) : Local (openBlock token) := by
  refine Local.get.bind fun s => (Local.require _).bind fun _ => ?_
  exact (local_addIndent _).bind fun opened => .ite (local_emit _) (.pure ())

theorem local_nextBlock : Local nextBlock := by
  have hrest : Local (do allowKey true; removeKey; forward 1; emit .blockEntry) :=
    (local_allowKey _).bind fun _ => local_passed _
  exact local_inFlow.bind fun _ => .ite ((local_openBlock _).bind fun _ => hrest) hrest

theorem local_explicitKey : Local explicitKey := by
  have hrest : Local (do allowKey (!(← inFlow)); removeKey; forward 1; emit .key) :=
    local_inFlow.bind fun _ => (local_allowKey _).bind fun _ => local_passed _
  exact local_inFlow.bind fun _ => .ite ((local_openBlock _).bind fun _ => hrest) hrest

theorem local_mappingValue : Local mappingValue := by
  have hrest : Local (do forward 1; emit .value) := (local_forward _).bind fun _ => local_emit _
  refine Local.get.bind fun s => ?_
  dsimp only
  split
  · have hclose : Local (do allowKey false; forward 1; emit .value) :=
      (local_allowKey _).bind fun _ => hrest
    refine (Local.modify _).bind fun _ => (local_insert _ _).bind fun _ => ?_
    refine local_inFlow.bind fun _ => .ite ?_ hclose
    refine (local_addIndent _).bind fun opened => .ite ?_ hclose
    exact (local_insert _ _).bind fun _ => hclose
  · have hkey : Local (do allowKey (!(← inFlow)); removeKey; forward 1; emit .value) :=
      local_inFlow.bind fun _ => (local_allowKey _).bind fun _ => local_passed _
    exact local_inFlow.bind fun _ => .ite ((local_openBlock _).bind fun _ => hkey) hkey

theorem local_saved {work : Scanner Unit} (h : Local work) : Local (saved work) :=
  local_saveKey.bind fun _ => (local_allowKey _).bind fun _ => h

theorem local_unsaved {work : Scanner Unit} (h : Local work) : Local (unsaved work) :=
  (local_allowKey _).bind fun _ => local_removeKey.bind fun _ => h

theorem local_next : Local next := by
  refine local_cursor.bind fun c => (local_skipToToken _).bind fun _ => ?_
  refine local_dropStaleKeys.bind fun _ => local_cursor.bind fun c => ?_
  refine (local_unwind _).bind fun _ => local_inFlow.bind fun inFlow => ?_
  dsimp only
  split
  · exact local_beginLine.bind fun _ => (local_emit _).bind fun _ => .pure _
  · have hgoes {work : Scanner Unit} (h : Local work) : Local (do work; return true) :=
      h.bind fun _ => .pure true
    have hname (token : String → Token) : Local (do emit (token (← anchorName))) :=
      local_anchorName.bind fun _ => local_emit _
    refine .ite (local_beginLine.bind fun _ => hgoes local_directive) ?_
    refine .ite (hgoes (local_border _)) (.ite (hgoes (local_border _)) ?_)
    refine .ite (hgoes (local_openFlow _)) (.ite (hgoes (local_openFlow _)) ?_)
    refine .ite (hgoes (local_closeFlow _)) (.ite (hgoes (local_closeFlow _)) ?_)
    refine .ite (hgoes local_nextFlow) (.ite (hgoes local_nextBlock) ?_)
    refine .ite (hgoes local_explicitKey) (.ite (hgoes local_mappingValue) ?_)
    refine .ite (hgoes (local_saved (hname _))) (.ite (hgoes (local_saved (hname _))) ?_)
    refine .ite (hgoes (local_saved local_tag)) ?_
    refine .ite (hgoes (local_unsaved (local_blockScalar _))) ?_
    refine .ite (hgoes (local_unsaved (local_blockScalar _))) ?_
    refine .ite (hgoes (local_saved (local_quotedScalar _))) ?_
    refine .ite (hgoes (local_saved (local_quotedScalar _))) ?_
    exact .ite (hgoes (local_saved local_plainScalar)) (hgoes .fail)

end Scanner

/-! ## All tokens of a text -/

theorem Source.isLocal_ofChars (chars : List Char) :
    ∀ trouble ∈ (ofChars chars).stop, trouble.IsLocal := by
  unfold ofChars
  dsimp only
  split
  · nofun
  · rintro _ ⟨⟩
    trivial

theorem Source.isLocal_ofBytes (data : List UInt8) :
    ∀ trouble ∈ (ofBytes data).stop, trouble.IsLocal := by
  unfold ofBytes ofBrokenBytes
  split
  · exact isLocal_ofChars _
  · dsimp only
    split
    · exact isLocal_ofChars _
    · rintro _ ⟨⟩
      rfl

theorem Scanned.isLocal_scanFrom {source : Source} (h : ∀ trouble ∈ source.stop, trouble.IsLocal) :
    ∀ steps s, ∀ trouble ∈ (scanFrom source s steps).trouble, trouble.IsLocal
  | 0, s => by
      rintro _ ⟨⟩
      trivial
  | steps + 1, s => by
      have hnext := Scanner.local_next s
      rw [scanFrom]
      rcases hrun : Scanner.next.run s with ⟨result, after⟩
      rw [hrun] at hnext
      dsimp only
      split
      · rename_i trouble hreaches
        rintro _ ⟨⟩
        unfold reaches at hreaches
        split at hreaches
        · exact h trouble hreaches
        · cases hreaches
      · rename_i trouble _
        rintro _ ⟨⟩
        exact hnext trouble rfl
      · exact isLocal_scanFrom h steps after
      · nofun

theorem Token.isLocal_scan {source : Source} (h : ∀ trouble ∈ source.stop, trouble.IsLocal) :
    ∀ trouble ∈ (scan source).trouble, trouble.IsLocal := by
  unfold scan
  exact Scanned.isLocal_scanFrom h _ _

end Yaml

end Playbook
