import Playbook.Proofs.Shell.Rendering
import Playbook.Proofs.Text

/-!
# Layout of scripts

A rendered script is its statements and comments in tree order. A statement
stands in it as it is, behind two blanks for each level; every physical line
of a comment has a number sign behind its blanks. What stands there does not
depend on the depth at which it is rendered, but for the blanks.
-/

namespace Playbook.Shell

/-- Two blanks for each level. -/
def margin (level : Nat) : String := String.ofList (List.replicate (2 * level) ' ')

/-- A line of a comment, without blanks at its end. -/
def commented (line : String) : String :=
  "#" ++ String.ofList (Text.trimRight (' ' :: line.toList))

/-! ## Physical lines -/

/-- A physical line of a script that is rendered at depth zero. -/
inductive Row where
  /-- The first line of a statement. -/
  | first (level : Nat) (text : String)
  /-- Another line of a statement, which belongs to quoted text. -/
  | further (text : String)
  | comment (level : Nat) (text : String)
  | blank

namespace Row

def text : Row → String
  | .first level text => margin level ++ text
  | .further text => text
  | .comment level text => margin level ++ commented text
  | .blank => ""

/-- What a depth puts in front of a physical line. -/
def lead (depth : Nat) : Row → String
  | .first _ _ | .comment _ _ => margin depth
  | .further _ | .blank => ""

end Row

/-! ## Entries -/

/-- What has lines of its own in a script, with the number of blocks around it. -/
inductive Entry where
  | statement (level : Nat) (text : String)
  | comment (level : Nat) (text : String)
  | blank

namespace Entry

/-- A statement stands in one piece; each line of a comment is commented out on its own. -/
def pieces (depth : Nat) : Entry → List String
  | .statement level text => [margin (depth + level) ++ text]
  | .comment level text =>
      (Text.split '\n' text).map fun line => margin (depth + level) ++ commented line
  | .blank => [""]

def rows : Entry → List Row
  | .statement level text =>
      match Text.split '\n' text with
      | [] => []
      | line :: lines => .first level line :: lines.map .further
  | .comment level text => (Text.split '\n' text).map (.comment level)
  | .blank => [.blank]

end Entry

namespace Node

mutual

/-- The entries of a node in tree order, an alternative behind the body. -/
def entries (level : Nat) : Node → List Entry
  | .line text => [.statement level text]
  | .comment text => [.comment level text]
  | .blank => [.blank]
  | .block opener body none closer =>
      .statement level opener :: entriesOf (level + 1) body ++ [.statement level closer]
  | .block opener body (some other) closer =>
      .statement level opener :: entriesOf (level + 1) body ++
        .statement level "else" :: entriesOf (level + 1) other ++ [.statement level closer]
  | .foreign _ => []

def entriesOf (level : Nat) : List Node → List Entry
  | [] => []
  | node :: nodes => entries level node ++ entriesOf level nodes

end

/-- The entries of a script; one without nodes is a blank line. -/
def layout (nodes : List Node) : List Entry := if nodes.isEmpty then [.blank] else entriesOf 0 nodes

/-! ## Foreign nodes -/

/-- A node stands among others or in a block of them, however deep. -/
inductive Within (node : Node) : List Node → Prop
  | among {nodes : List Node} (h : node ∈ nodes) : Within node nodes
  | body {opener closer : String} {body nodes : List Node} {otherwise : Option (List Node)}
      (hblock : .block opener body otherwise closer ∈ nodes) (h : Within node body) :
      Within node nodes
  | otherwise {opener closer : String} {body other nodes : List Node}
      (hblock : .block opener body (some other) closer ∈ nodes) (h : Within node other) :
      Within node nodes

theorem Within.cons {node : Node} {nodes : List Node} (h : Within node nodes) (first : Node) :
    Within node (first :: nodes) := by
  cases h with
  | among h => exact .among (List.mem_cons_of_mem first h)
  | body hblock h => exact .body (List.mem_cons_of_mem first hblock) h
  | otherwise hblock h => exact .otherwise (List.mem_cons_of_mem first hblock) h

theorem not_allRenderable_of_within {value : Value} {nodes : List Node}
    (h : Within (.foreign value) nodes) : ¬ AllRenderable nodes := by
  intro hall
  induction h with
  | among h => exact allRenderable_iff.1 hall _ h
  | @body _ _ _ _ otherwise hblock _ ih =>
      have hnode := allRenderable_iff.1 hall _ hblock
      cases otherwise with
      | none => exact ih hnode
      | some other => exact ih hnode.1
  | otherwise hblock _ ih => exact ih (allRenderable_iff.1 hall _ hblock).2

mutual

theorem exists_within_of_not_renderable {nodes : List Node} : (node : Node) → node ∈ nodes →
    ¬ node.Renderable → ∃ value, Within (.foreign value) nodes
  | .line _, _, h | .comment _, _, h | .blank, _, h => absurd trivial h
  | .block _ body none _, hmem, h => by
      obtain ⟨value, hvalue⟩ := exists_within_of_not_allRenderable body h
      exact ⟨value, .body hmem hvalue⟩
  | .block _ body (some other) _, hmem, h => by
      by_cases hbody : AllRenderable body
      · obtain ⟨value, hvalue⟩ :=
          exists_within_of_not_allRenderable other fun hother => h ⟨hbody, hother⟩
        exact ⟨value, .otherwise hmem hvalue⟩
      · obtain ⟨value, hvalue⟩ := exists_within_of_not_allRenderable body hbody
        exact ⟨value, .body hmem hvalue⟩
  | .foreign value, hmem, _ => ⟨value, .among hmem⟩

theorem exists_within_of_not_allRenderable : (nodes : List Node) → ¬ AllRenderable nodes →
    ∃ value, Within (.foreign value) nodes
  | [], h => absurd trivial h
  | node :: nodes, h => by
      by_cases hnode : node.Renderable
      · obtain ⟨value, hvalue⟩ :=
          exists_within_of_not_allRenderable nodes fun hnodes => h ⟨hnode, hnodes⟩
        exact ⟨value, hvalue.cons node⟩
      · exact exists_within_of_not_renderable node List.mem_cons_self hnode

end

theorem allRenderable_iff_forall_not_within {nodes : List Node} :
    AllRenderable nodes ↔ ∀ value, ¬ Within (.foreign value) nodes := by
  refine ⟨fun h value hvalue => not_allRenderable_of_within hvalue h, fun h => ?_⟩
  by_contra hall
  obtain ⟨value, hvalue⟩ := exists_within_of_not_allRenderable nodes hall
  exact h value hvalue

mutual

theorem lines_of_not_renderable (depth : Int) : (node : Node) → ¬ node.Renderable →
    node.lines depth = .error .wrongType
  | .line _, h | .comment _, h | .blank, h => absurd trivial h
  | .block opener body none closer, h => by
      rw [lines, linesOf_of_not_allRenderable (depth + 1) body h]
      rfl
  | .block opener body (some other) closer, h => by
      by_cases hbody : AllRenderable body
      · obtain ⟨inner, hinner⟩ := exists_linesOf (depth + 1) body hbody
        rw [lines, hinner,
          linesOf_of_not_allRenderable (depth + 1) other fun hother => h ⟨hbody, hother⟩]
        rfl
      · rw [lines, linesOf_of_not_allRenderable (depth + 1) body hbody]
        rfl
  | .foreign _, _ => rfl

theorem linesOf_of_not_allRenderable (depth : Int) : (nodes : List Node) →
    ¬ AllRenderable nodes → linesOf depth nodes = .error .wrongType
  | [], h => absurd trivial h
  | node :: nodes, h => by
      by_cases hnode : node.Renderable
      · obtain ⟨first, hfirst⟩ := exists_lines depth node hnode
        rw [linesOf, hfirst,
          linesOf_of_not_allRenderable depth nodes fun hnodes => h ⟨hnode, hnodes⟩]
        rfl
      · rw [linesOf, lines_of_not_renderable depth node hnode]
        rfl

end

/-! ## Lines of nodes -/

theorem indent_natCast (level : Nat) : indent level = margin level := by
  rw [indent, margin, Int.toNat_natCast]

/-- The number sign keeps the blanks in front of it when those at the end go away. -/
theorem commentLine_natCast (level : Nat) (line : List Char) :
    commentLine level line = margin level ++ commented (String.ofList line) := by
  have hsign : Text.isBlank '#' = false := by decide
  apply String.toList_inj.1
  rw [commentLine, Text.trimRight_append_cons hsign, indent_natCast]
  simp [commented]

mutual

theorem lines_eq_pieces (depth level : Nat) : (node : Node) → node.Renderable →
    node.lines (depth + level : Nat) = .ok ((entries level node).flatMap (Entry.pieces depth))
  | .line text, _ => by
      rw [lines, indent_natCast, entries]
      rfl
  | .comment text, _ => by
      rw [lines, entries, List.flatMap_singleton, Entry.pieces, Text.split, List.map_map]
      exact congrArg Except.ok (List.map_congr_left fun line _ => commentLine_natCast _ line)
  | .blank, _ => by rw [lines, entries]; rfl
  | .block opener body none closer, h => by
      -- A body is rendered one step deeper, which counts as a level here.
      have hdepth : ((depth + level : Nat) : Int) + 1 = (depth + (level + 1) : Nat) := rfl
      rw [lines, hdepth, linesOf_eq_pieces depth (level + 1) body h, entries, indent_natCast]
      refine congrArg Except.ok ?_
      simp [Entry.pieces]
  | .block opener body (some other) closer, h => by
      have hdepth : ((depth + level : Nat) : Int) + 1 = (depth + (level + 1) : Nat) := rfl
      rw [lines, hdepth, linesOf_eq_pieces depth (level + 1) body h.1,
        linesOf_eq_pieces depth (level + 1) other h.2, entries, indent_natCast]
      refine congrArg Except.ok ?_
      simp [Entry.pieces]
  | .foreign _, h => h.elim

theorem linesOf_eq_pieces (depth level : Nat) : (nodes : List Node) → AllRenderable nodes →
    linesOf (depth + level : Nat) nodes = .ok ((entriesOf level nodes).flatMap (Entry.pieces depth))
  | [], _ => by rw [linesOf, entriesOf]; rfl
  | node :: nodes, h => by
      rw [linesOf, lines_eq_pieces depth level node h.1, linesOf_eq_pieces depth level nodes h.2,
        entriesOf, List.flatMap_append]
      rfl

end

end Node

/-! ## Physical lines of entries -/

theorem margin_add (depth level : Nat) : margin (depth + level) = margin depth ++ margin level := by
  rw [margin, margin, margin, ← String.ofList_append, List.replicate_append_replicate, Nat.mul_add]

theorem newline_notMem_margin (level : Nat) : '\n' ∉ (margin level).toList := by
  rw [margin, String.toList_ofList, List.mem_replicate]
  rintro ⟨-, ⟨⟩⟩

theorem newline_notMem_commented {line : String} (h : '\n' ∉ line.toList) :
    '\n' ∉ (commented line).toList := by
  rw [commented, String.toList_append, List.mem_append]
  rintro (hsign | htext)
  · exact absurd hsign (by decide)
  · rw [String.toList_ofList] at htext
    have hmem := Text.mem_of_mem_trimRight htext
    exact h ((List.mem_cons.1 hmem).resolve_left (by decide))

namespace Entry

/-- A margin does not divide the first line of the text behind it, and adds none. -/
theorem split_statement (depth level : Nat) (text : String) :
    Text.split '\n' (margin (depth + level) ++ text) =
      (statement level text).rows.map fun row => row.lead depth ++ row.text := by
  obtain ⟨first, others, hpieces⟩ :=
    List.exists_cons_of_ne_nil (Text.pieces_ne_nil '\n' text.toList)
  have htext : Text.split '\n' text = String.ofList first :: others.map String.ofList := by
    rw [Text.split, hpieces, List.map_cons]
  have hmargin : Text.split '\n' (margin (depth + level) ++ text) =
      (margin (depth + level) ++ String.ofList first) :: others.map String.ofList := by
    rw [Text.split, String.toList_append,
      Text.pieces_append_of_notMem (newline_notMem_margin _) hpieces, List.map_cons,
      String.ofList_append, String.ofList_toList]
  rw [hmargin, rows, htext]
  simp [Row.lead, Row.text, margin_add, String.append_assoc, Function.comp_def]

/-- Each line of a comment is one physical line. -/
theorem split_comment (depth level : Nat) (text : String) :
    ((comment level text).pieces depth).flatMap (Text.split '\n') =
      (comment level text).rows.map fun row => row.lead depth ++ row.text := by
  rw [pieces, rows, List.flatMap_map, List.map_map]
  have hline : ∀ line ∈ Text.split '\n' text,
      Text.split '\n' (margin (depth + level) ++ commented line) =
        [margin depth ++ (margin level ++ commented line)] := by
    intro line hmem
    obtain ⟨piece, hpiece, rfl⟩ := List.mem_map.1 hmem
    have hnewline : '\n' ∉ (String.ofList piece).toList := by
      rw [String.toList_ofList]
      exact Text.notMem_of_mem_pieces hpiece
    rw [Text.split_of_notMem, margin_add, String.append_assoc]
    rw [String.toList_append, List.mem_append]
    exact not_or.2 ⟨newline_notMem_margin _, newline_notMem_commented hnewline⟩
  rw [List.flatMap_congr hline, ← List.map_eq_flatMap]
  rfl

theorem split_pieces (depth : Nat) (entry : Entry) :
    (entry.pieces depth).flatMap (Text.split '\n') =
      entry.rows.map fun row => row.lead depth ++ row.text := by
  cases entry with
  | statement level text => rw [pieces, List.flatMap_singleton, split_statement]
  | comment level text => exact split_comment depth level text
  | blank => rfl

end Entry

/-! ## Rendering -/

namespace Node

theorem lines_ne_nil {depth : Int} {node : Node} {found : List String}
    (h : node.lines depth = .ok found) : found ≠ [] := by
  match node with
  | .line text =>
      cases h
      exact List.cons_ne_nil _ _
  | .comment text =>
      cases h
      exact mt List.map_eq_nil_iff.1 (Text.pieces_ne_nil _ _)
  | .blank =>
      cases h
      exact List.cons_ne_nil _ _
  | .block opener body none closer =>
      obtain ⟨inner, -, h⟩ := Attempt.of_bind_ok h
      cases h
      exact List.cons_ne_nil _ _
  | .block opener body (some other) closer =>
      obtain ⟨inner, -, h⟩ := Attempt.of_bind_ok h
      obtain ⟨rest, -, h⟩ := Attempt.of_bind_ok h
      cases h
      exact List.cons_ne_nil _ _
  | .foreign value => cases h

theorem linesOf_ne_nil {depth : Int} {nodes : List Node} {found : List String} (hne : nodes ≠ [])
    (h : linesOf depth nodes = .ok found) : found ≠ [] := by
  obtain ⟨node, nodes, rfl⟩ := List.exists_cons_of_ne_nil hne
  obtain ⟨first, hfirst, h⟩ := Attempt.of_bind_ok h
  obtain ⟨rest, -, h⟩ := Attempt.of_bind_ok h
  cases h
  exact List.append_ne_nil_of_left_ne_nil (lines_ne_nil hfirst) rest

end Node

open Node

theorem render_append {nodes others : List Node} (hnodes : nodes ≠ []) (hothers : others ≠ [])
    (depth : Int) : render (nodes ++ others) depth = do
      return (← render nodes depth) ++ (← render others depth) := by
  rw [render, render, render, linesOf_append]
  cases hfirst : linesOf depth nodes with
  | error fault => rfl
  | ok first =>
      cases hrest : linesOf depth others with
      | error fault => rfl
      | ok rest =>
          exact congrArg Except.ok
            (Text.join_append (linesOf_ne_nil hnodes hfirst) (linesOf_ne_nil hothers hrest))

theorem render_of_not_allRenderable {nodes : List Node} (h : ¬ AllRenderable nodes) (depth : Int) :
    render nodes depth = .error .wrongType := by
  rw [render, linesOf_of_not_allRenderable depth nodes h]
  rfl

variable {nodes : List Node}

theorem render_eq_pieces (h : AllRenderable nodes) (depth : Nat) : render nodes depth =
    .ok (Text.join "\n" ((layout nodes).flatMap (Entry.pieces depth)) ++ "\n") := by
  cases nodes with
  | nil => rfl
  | cons node nodes =>
      have hlines := linesOf_eq_pieces depth 0 (node :: nodes) h
      rw [Nat.add_zero] at hlines
      rw [render, hlines]
      rfl

theorem pieces_layout_ne_nil (h : AllRenderable nodes) (depth : Nat) :
    (layout nodes).flatMap (Entry.pieces depth) ≠ [] := by
  cases nodes with
  | nil => exact List.cons_ne_nil _ _
  | cons node nodes =>
      exact linesOf_ne_nil (List.cons_ne_nil _ _) (linesOf_eq_pieces depth 0 (node :: nodes) h)

/-- The physical lines of a script are those of its entries. -/
theorem split_layout (h : AllRenderable nodes) (depth : Nat) :
    Text.split '\n' (Text.join "\n" ((layout nodes).flatMap (Entry.pieces depth)) ++ "\n") =
      ((layout nodes).flatMap Entry.rows).map (fun row => row.lead depth ++ row.text) ++ [""] := by
  rw [Text.split_join (pieces_layout_ne_nil h depth), List.flatMap_assoc, List.map_flatMap,
    List.flatMap_congr fun entry _ => entry.split_pieces depth]

theorem Row.lead_zero (row : Row) : row.lead 0 = "" := by
  cases row <;> rfl

/-- A conditional with a comment of three lines and a quoted text of two. -/
def planned : Node :=
  .choice "if [ -f plan.md ]; then"
    [.comment "Read it.\n\nGo on.", .line "echo \"one\n  two\""] [.blank, .line "exit 1"]

end Playbook.Shell
