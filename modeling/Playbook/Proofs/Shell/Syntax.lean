import Playbook.Proofs.Shell.Execution
import Playbook.Proofs.Shell.Quoting

/-!
# Scripts that a shell can parse

A block is a conditional, a loop or the function that loads the context of the
project. A shell refuses a block that has nothing to carry out in one of its
parts; comments and blank lines do not count.
-/

namespace Playbook.Shell

/-! ## Heads of texts -/

def ends (tail text : String) : Bool := decide (tail.toList <:+ text.toList)

theorem begins_append {head text : String} (h : begins head text) (rest : String) :
    begins head (text ++ rest) := by
  simp only [begins, decide_eq_true_eq, String.toList_append] at h ⊢
  exact h.trans (List.prefix_append _ _)

theorem ends_append {tail text : String} (h : ends tail text) (start : String) :
    ends tail (start ++ text) := by
  simp only [ends, decide_eq_true_eq, String.toList_append] at h ⊢
  exact h.trans (List.suffix_append _ _)

/-- A text that has none of some heads, and is not the start of one either. -/
def Avoids (heads : List String) (text : String) : Prop :=
  ∀ head ∈ heads, begins text head = false ∧ begins head text = false

def bytes (text : String) : List UInt8 := text.toByteArray.data.toList

theorem begins_eq_false_of_bytes {head text : String}
    (h : (bytes head).isPrefixOf (bytes text) = false) : begins head text = false := by
  rw [begins, decide_eq_false_iff_not]
  rintro ⟨rest, hrest⟩
  obtain rfl : text = head ++ String.ofList rest := by
    rw [← String.toList_inj, String.toList_append, String.toList_ofList, hrest]
  have hprefix : bytes head <+: bytes (head ++ String.ofList rest) := by
    simp [bytes]
  rw [List.isPrefixOf_iff_prefix.2 hprefix] at h
  cases h

/-- Texts whose bytes differ early differ early. -/
def bytesAvoid (heads : List String) (text : String) : Bool :=
  heads.all fun head =>
    !(bytes text).isPrefixOf (bytes head) && !(bytes head).isPrefixOf (bytes text)

theorem avoids_of_bytesAvoid {heads : List String} {text : String} (h : bytesAvoid heads text) :
    Avoids heads text := by
  intro head hhead
  have hbytes := List.all_eq_true.1 h head hhead
  rw [Bool.and_eq_true, Bool.not_eq_true', Bool.not_eq_true'] at hbytes
  exact ⟨begins_eq_false_of_bytes hbytes.1, begins_eq_false_of_bytes hbytes.2⟩

-- The bytes of a literal are at hand, while its characters have to be decoded first.
instance (heads : List String) (text : String) : Decidable (Avoids heads text) :=
  if h : bytesAvoid heads text then isTrue (avoids_of_bytesAvoid h)
  else List.decidableBAll _ heads

theorem Avoids.of_begins {heads : List String} {start text : String} (h : Avoids heads start)
    (hbegins : begins start text) : Avoids heads text := by
  intro head hhead
  have hstart := h head hhead
  simp only [begins, decide_eq_true_eq, decide_eq_false_iff_not] at hstart hbegins ⊢
  constructor
  · intro htext
    exact hstart.1 (hbegins.trans htext)
  · intro hother
    exact (List.prefix_or_prefix_of_prefix hbegins hother).elim hstart.1 hstart.2

theorem Avoids.append {heads : List String} {text : String} (h : Avoids heads text)
    (rest : String) : Avoids heads (text ++ rest) :=
  h.of_begins (by simp [begins])

theorem Avoids.mono {heads others : List String} {text : String} (h : Avoids heads text)
    (hsub : others ⊆ heads) : Avoids others text := fun head hhead => h head (hsub hhead)

/-! ## Blocks -/

inductive Construct where
  | conditional
  | loop
  | function
deriving DecidableEq

def isConditional (opener : String) : Bool := isTest opener && ends "; then" opener

/-- What a block is, by its first and its last line. -/
def construct? (opener closer : String) : Option Construct :=
  if isConditional opener && closer == "fi" then some .conditional
  else if begins "for " opener && ends "; do" opener && closer == "done" then some .loop
  else if opener == "load_project_context() \x7b" && closer == "\x7d" then some .function
  else none

/-- A conditional may have anything between its own words. -/
theorem isConditional_append {front back : String} (hfront : isTest front)
    (hback : ends "; then" back) (test : String) : isConditional (front ++ (test ++ back)) := by
  rw [isConditional, Bool.and_eq_true]
  constructor
  · exact begins_append hfront (test ++ back)
  · exact ends_append (ends_append hback test) front

namespace Node

/-- A node that has something to carry out. -/
def acts : Node → Bool
  | .line _ | .block .. => true
  | .comment _ | .blank | .foreign _ => false

mutual

/-- Only conditionals have an alternative, and only a loop is left by `break`. -/
def wellFormed (looped : Bool) : Node → Bool
  | .line text => looped || !begins "break" text
  | .comment _ | .blank => true
  | .block opener body none closer =>
      body.any acts && match construct? opener closer with
        | some .conditional => allWellFormed looped body
        | some .loop => allWellFormed true body
        | some .function => allWellFormed false body
        | none => false
  | .block opener body (some other) closer =>
      construct? opener closer == some .conditional && body.any acts && other.any acts &&
        allWellFormed looped body && allWellFormed looped other
  | .foreign _ => false

def allWellFormed (looped : Bool) : List Node → Bool
  | [] => true
  | node :: nodes => wellFormed looped node && allWellFormed looped nodes

end

mutual

/-- The number of loops in a node. -/
def loops : Node → Nat
  | .block opener body none _ => (begins "for " opener).toNat + loopsOf body
  | .block opener body (some other) _ =>
      (begins "for " opener).toNat + (loopsOf body + loopsOf other)
  | .line _ | .comment _ | .blank | .foreign _ => 0

def loopsOf : List Node → Nat
  | [] => 0
  | node :: nodes => loops node + loopsOf nodes

end

theorem allWellFormed_append (looped : Bool) (nodes others : List Node) :
    allWellFormed looped (nodes ++ others) =
      (allWellFormed looped nodes && allWellFormed looped others) := by
  induction nodes with
  | nil => simp [allWellFormed]
  | cons node nodes ih => simp [allWellFormed, ih, Bool.and_assoc]

theorem loopsOf_append (nodes others : List Node) :
    loopsOf (nodes ++ others) = loopsOf nodes + loopsOf others := by
  induction nodes with
  | nil => simp [loopsOf]
  | cons node nodes ih => simp [loopsOf, ih, Nat.add_assoc]

/-! ## Nodes without loops -/

mutual

/-- Statements of a kind, and conditionals with something to carry out in each part. -/
def Consists (allowed : String → Prop) : Node → Prop
  | .line text => allowed text
  | .comment _ | .blank => True
  | .block opener body none closer =>
      construct? opener closer = some .conditional ∧ body.any acts ∧ AllConsist allowed body
  | .block opener body (some other) closer =>
      construct? opener closer = some .conditional ∧ (body.any acts ∧ other.any acts) ∧
        AllConsist allowed body ∧ AllConsist allowed other
  | .foreign _ => False

def AllConsist (allowed : String → Prop) : List Node → Prop
  | [] => True
  | node :: nodes => node.Consists allowed ∧ AllConsist allowed nodes

end

variable {allowed : String → Prop}

theorem allConsist_iff {nodes : List Node} :
    AllConsist allowed nodes ↔ ∀ node ∈ nodes, node.Consists allowed := by
  induction nodes with
  | nil => simp [AllConsist]
  | cons node nodes ih => simp [AllConsist, ih]

@[simp] theorem allConsist_nil : AllConsist allowed [] := trivial

@[simp] theorem allConsist_cons {node : Node} {nodes : List Node} :
    AllConsist allowed (node :: nodes) ↔ node.Consists allowed ∧ AllConsist allowed nodes := Iff.rfl

@[simp] theorem allConsist_append {nodes others : List Node} :
    AllConsist allowed (nodes ++ others) ↔
      AllConsist allowed nodes ∧ AllConsist allowed others := by
  simp [allConsist_iff, or_imp, forall_and]

theorem allConsist_map {α : Type} {f : α → Node} {l : List α}
    (h : ∀ a ∈ l, (f a).Consists allowed) : AllConsist allowed (l.map f) := by
  rw [allConsist_iff]
  intro node hnode
  obtain ⟨a, ha, rfl⟩ := List.mem_map.1 hnode
  exact h a ha

@[simp] theorem consists_line (text : String) : (line text).Consists allowed ↔ allowed text := Iff.rfl

@[simp] theorem consists_comment (text : String) : (comment text).Consists allowed := trivial

@[simp] theorem consists_blank : blank.Consists allowed := trivial

theorem construct?_fi (opener : String) :
    construct? opener "fi" = some .conditional ↔ isConditional opener := by
  cases h : isConditional opener <;> simp [construct?, h]

@[simp] theorem consists_when {opener : String} {body : List Node} :
    (when opener body).Consists allowed ↔
      isConditional opener ∧ body.any acts ∧ AllConsist allowed body := by
  rw [when, Consists, construct?_fi]

@[simp] theorem consists_choice {opener : String} {body other : List Node} :
    (choice opener body other).Consists allowed ↔
      isConditional opener ∧ (body.any acts ∧ other.any acts) ∧
        AllConsist allowed body ∧ AllConsist allowed other := by
  rw [choice, Consists, construct?_fi]

theorem isConditional_of_construct? {opener closer : String}
    (h : construct? opener closer = some .conditional) : isConditional opener := by
  unfold construct? at h
  cases hopener : isConditional opener with
  | true => rfl
  | false =>
      simp only [hopener, Bool.false_and, Bool.false_eq_true, if_false] at h
      split at h
      · cases h
      · split at h <;> cases h

theorem begins_for_of_construct? {opener closer : String}
    (h : construct? opener closer = some .conditional) : begins "for " opener = false := by
  have htest := (Bool.and_eq_true_iff.1 (isConditional_of_construct? h)).1
  have havoids : Avoids ["for "] opener := Avoids.of_begins (by decide) htest
  exact (havoids "for " List.mem_cons_self).2

mutual

theorem Consists.mono {other : String → Prop} (hallowed : ∀ text, allowed text → other text) :
    (node : Node) → node.Consists allowed → node.Consists other
  | .line text, h => hallowed text h
  | .comment _, _ | .blank, _ => trivial
  | .block _ body none _, ⟨hopener, hacts, hbody⟩ =>
      ⟨hopener, hacts, AllConsist.mono hallowed body hbody⟩
  | .block _ body (some rest) _, ⟨hopener, hacts, hbody, hrest⟩ =>
      ⟨hopener, hacts, AllConsist.mono hallowed body hbody, AllConsist.mono hallowed rest hrest⟩

theorem AllConsist.mono {other : String → Prop} (hallowed : ∀ text, allowed text → other text) :
    (nodes : List Node) → AllConsist allowed nodes → AllConsist other nodes
  | [], _ => trivial
  | node :: nodes, ⟨hnode, hnodes⟩ =>
      ⟨hnode.mono hallowed node, AllConsist.mono hallowed nodes hnodes⟩

end

mutual

theorem Consists.wellFormed {looped : Bool}
    (hallowed : ∀ text, allowed text → (looped || !begins "break" text) = true) :
    (node : Node) → node.Consists allowed → node.wellFormed looped
  | .line text, h => hallowed text h
  | .comment _, _ => rfl
  | .blank, _ => rfl
  | .block opener body none closer, ⟨hopener, hacts, hbody⟩ => by
      simp [Node.wellFormed, hopener, hacts, AllConsist.allWellFormed hallowed body hbody]
  | .block opener body (some other) closer, ⟨hopener, ⟨hacts, hacts'⟩, hbody, hother⟩ => by
      simp [Node.wellFormed, hopener, hacts, hacts', AllConsist.allWellFormed hallowed body hbody,
        AllConsist.allWellFormed hallowed other hother]

theorem AllConsist.allWellFormed {looped : Bool}
    (hallowed : ∀ text, allowed text → (looped || !begins "break" text) = true) :
    (nodes : List Node) → AllConsist allowed nodes → Node.allWellFormed looped nodes
  | [], _ => rfl
  | node :: nodes, ⟨hnode, hnodes⟩ => by
      simp [Node.allWellFormed, hnode.wellFormed hallowed node,
        AllConsist.allWellFormed hallowed nodes hnodes]

end

mutual

theorem Consists.loops : (node : Node) → node.Consists allowed → node.loops = 0
  | .line _, _ | .comment _, _ | .blank, _ => by simp [Node.loops]
  | .block opener body none closer, ⟨hopener, _, hbody⟩ => by
      simp [Node.loops, begins_for_of_construct? hopener, AllConsist.loopsOf body hbody]
  | .block opener body (some other) closer, ⟨hopener, _, hbody, hother⟩ => by
      simp [Node.loops, begins_for_of_construct? hopener, AllConsist.loopsOf body hbody,
        AllConsist.loopsOf other hother]

theorem AllConsist.loopsOf : (nodes : List Node) → AllConsist allowed nodes →
    Node.loopsOf nodes = 0
  | [], _ => by simp [Node.loopsOf]
  | node :: nodes, ⟨hnode, hnodes⟩ => by
      simp [Node.loopsOf, hnode.loops node, AllConsist.loopsOf nodes hnodes]

end

mutual

theorem Consists.mem_statements {text : String} : (node : Node) → node.Consists allowed →
    text ∈ statements node → allowed text ∨ isTest text
  | .line _, h, htext => by
      obtain rfl : text = _ := by simpa using htext
      exact .inl h
  | .comment _, _, htext | .blank, _, htext => by simp at htext
  | .block opener body none closer, ⟨hopener, _, hbody⟩, htext => by
      rw [statements, List.mem_cons] at htext
      rcases htext with rfl | htext
      · exact .inr (Bool.and_eq_true_iff.1 (isConditional_of_construct? hopener)).1
      · exact AllConsist.mem_statementsOf body hbody htext
  | .block opener body (some other) closer, ⟨hopener, _, hbody, hother⟩, htext => by
      rw [statements, List.mem_cons, List.mem_append] at htext
      rcases htext with rfl | htext | htext
      · exact .inr (Bool.and_eq_true_iff.1 (isConditional_of_construct? hopener)).1
      · exact AllConsist.mem_statementsOf body hbody htext
      · exact AllConsist.mem_statementsOf other hother htext

theorem AllConsist.mem_statementsOf {text : String} : (nodes : List Node) →
    AllConsist allowed nodes → text ∈ statementsOf nodes → allowed text ∨ isTest text
  | [], _, htext => by simp at htext
  | node :: nodes, ⟨hnode, hnodes⟩, htext => by
      rw [statementsOf_cons, List.mem_append] at htext
      rcases htext with htext | htext
      · exact hnode.mem_statements node htext
      · exact AllConsist.mem_statementsOf nodes hnodes htext

end

end Node

end Playbook.Shell
