import Mathlib.Data.List.Basic
import Playbook.Shell.Quote
import Playbook.Shell.Script

/-!
# What a shell reads

A shell reads a statement from the left and gives each character a role. A
name that is put between double quotes is read back if each of its characters
stands for itself, whatever the statement has around it. The dollar sign is an
ordinary character here.
-/

namespace Playbook.Shell

/-! ## Roles -/

/-- What stands around a character; a guarded one has a backslash in front. -/
inductive Mode where
  | bare
  | bareGuarded
  | single
  | double
  | doubleGuarded
deriving DecidableEq

inductive Role where
  | code
  | quote
  /-- A backslash that takes its meaning from the character behind it. -/
  | guard
  /-- A backtick, which begins or ends a command. -/
  | command
  | literal
deriving DecidableEq

/-- Between double quotes a backslash guards these and stands for itself in front of others. -/
def isGuardable (c : Char) : Bool := isEscaped c || c == '$' || c == '\n'

/-- The role of a character in front of another, and the mode behind it. -/
def read (mode : Mode) (c : Char) (next : Option Char) : Role × Mode :=
  match mode with
  | .bare =>
      if c = '"' then (.quote, .double)
      else if c = '\'' then (.quote, .single)
      else if c = '\x60' then (.command, .bare)
      else if c = '\\' then (.guard, .bareGuarded)
      else (.code, .bare)
  | .bareGuarded => (.literal, .bare)
  | .single => if c = '\'' then (.quote, .bare) else (.literal, .single)
  | .double =>
      if c = '"' then (.quote, .bare)
      else if c = '\x60' then (.command, .double)
      else if c = '\\' ∧ next.any isGuardable then (.guard, .doubleGuarded)
      else (.literal, .double)
  | .doubleGuarded => (.literal, .double)

/-- The roles of the characters of a text in front of another character. -/
def roles (mode : Mode) (text : List Char) (next : Option Char) : List Role :=
  match text with
  | [] => []
  | c :: rest =>
      (read mode c (rest.head?.or next)).1 :: roles (read mode c (rest.head?.or next)).2 rest next

def after (mode : Mode) (text : List Char) (next : Option Char) : Mode :=
  match text with
  | [] => mode
  | c :: rest => after (read mode c (rest.head?.or next)).2 rest next

@[simp] theorem length_roles (mode : Mode) (text : List Char) (next : Option Char) :
    (roles mode text next).length = text.length := by
  induction text generalizing mode with
  | nil => rfl
  | cons c rest ih => simp [roles, ih]

theorem roles_append (mode : Mode) (text rest : List Char) (next : Option Char) :
    roles mode (text ++ rest) next =
      roles mode text (rest.head?.or next) ++
        roles (after mode text (rest.head?.or next)) rest next := by
  induction text generalizing mode with
  | nil => rfl
  | cons c text ih =>
      rw [List.cons_append, roles, ih, List.head?_append, Option.or_assoc]
      rfl

theorem after_append (mode : Mode) (text rest : List Char) (next : Option Char) :
    after mode (text ++ rest) next =
      after (after mode text (rest.head?.or next)) rest next := by
  induction text generalizing mode with
  | nil => rfl
  | cons c text ih =>
      rw [List.cons_append, after, ih, List.head?_append, Option.or_assoc]
      rfl

/-! ## Escaped text -/

def escapeRoles (c : Char) : List Role :=
  if isEscaped c then [.guard, .literal] else [.literal]

theorem isEscaped_eq_false_iff {c : Char} :
    isEscaped c = false ↔ c ≠ '\\' ∧ c ≠ '"' ∧ c ≠ '\x60' := by
  simp [isEscaped, and_assoc]

theorem read_of_not_isEscaped {c : Char} (h : isEscaped c = false) (next : Option Char) :
    read .double c next = (.literal, .double) := by
  obtain ⟨hslash, hquote, htick⟩ := isEscaped_eq_false_iff.1 h
  simp [read, hslash, hquote, htick]

theorem read_escapeChar (c : Char) (next : Option Char) :
    roles .double (escapeChar c) next = escapeRoles c ∧
      after .double (escapeChar c) next = .double := by
  unfold escapeChar escapeRoles
  cases h : isEscaped c with
  | false => simp [roles, after, read_of_not_isEscaped h]
  | true => simp [roles, after, read, isGuardable, h]

/-- Between double quotes escaped text is read as the text, and the quotes stay open. -/
theorem read_escapeChars (text : List Char) (next : Option Char) :
    roles .double (escapeChars text) next = text.flatMap escapeRoles ∧
      after .double (escapeChars text) next = .double := by
  induction text with
  | nil => exact ⟨rfl, rfl⟩
  | cons c text ih =>
      obtain ⟨hroles, hafter⟩ := read_escapeChar c ((escapeChars text).head?.or next)
      have hcons : escapeChars (c :: text) = escapeChar c ++ escapeChars text := rfl
      rw [hcons, roles_append, after_append, hroles, hafter, ih.1, ih.2]
      exact ⟨rfl, rfl⟩

/-! ## Text as it is -/

/-- Nothing in a text calls for an escape. -/
def Plain (text : String) : Prop := ∀ c ∈ text.toList, isEscaped c = false

instance (text : String) : Decidable (Plain text) := List.decidableBAll _ text.toList

/-- Each character stands for itself between double quotes, in front of another character. -/
def Verbatim (text : List Char) (next : Option Char) : Prop :=
  match text with
  | [] => True
  | c :: rest =>
      (c ≠ '"' ∧ c ≠ '\x60' ∧ ¬ (c = '\\' ∧ (rest.head?.or next).any isGuardable)) ∧
        Verbatim rest next

theorem Plain.verbatim {text : String} (h : Plain text) (next : Option Char) :
    Verbatim text.toList next := by
  unfold Plain at h
  generalize text.toList = chars at h
  induction chars with
  | nil => trivial
  | cons c rest ih =>
      obtain ⟨hslash, hquote, htick⟩ := isEscaped_eq_false_iff.1 (h c List.mem_cons_self)
      exact ⟨⟨hquote, htick, fun hguard => hslash hguard.1⟩,
        ih fun d hd => h d (List.mem_cons_of_mem _ hd)⟩

theorem read_eq_literal_iff {c : Char} {next : Option Char} :
    (read .double c next).1 = .literal ↔
      c ≠ '"' ∧ c ≠ '\x60' ∧ ¬ (c = '\\' ∧ next.any isGuardable) := by
  unfold read
  by_cases hquote : c = '"'
  · simp [hquote]
  by_cases htick : c = '\x60'
  · simp [htick]
  by_cases hguard : c = '\\' ∧ next.any isGuardable
  · simp [hguard]
  · simp [hquote, htick, hguard]

theorem read_eq_of_literal {c : Char} {next : Option Char}
    (h : (read .double c next).1 = .literal) : (read .double c next).2 = .double := by
  obtain ⟨hquote, htick, hguard⟩ := read_eq_literal_iff.1 h
  simp [read, hquote, htick, hguard]

theorem roles_eq_literal_iff {text : List Char} {next : Option Char} :
    roles .double text next = text.map (fun _ => .literal) ↔ Verbatim text next := by
  induction text with
  | nil => simp [roles, Verbatim]
  | cons c rest ih =>
      rw [roles, List.map_cons, List.cons.injEq, Verbatim, ← read_eq_literal_iff]
      refine and_congr_right fun hliteral => ?_
      rw [read_eq_of_literal hliteral, ih]

theorem Verbatim.after {text : List Char} {next : Option Char} (h : Verbatim text next) :
    after .double text next = .double := by
  induction text with
  | nil => rfl
  | cons c rest ih =>
      rw [Shell.after, read_eq_of_literal (read_eq_literal_iff.2 h.1), ih h.2]

/-! ## Turns -/

/-- Reading a text turns a mode into another, whatever comes behind. -/
def Turns (mode : Mode) (text : String) (mode' : Mode) : Prop :=
  ∀ next, after mode text.toList next = mode'

theorem Turns.append {mode mode' mode'' : Mode} {text rest : String} (h : Turns mode text mode')
    (h' : Turns mode' rest mode'') : Turns mode (text ++ rest) mode'' := by
  intro next
  rw [String.toList_append, after_append, h, h']

theorem Plain.turns {text : String} (h : Plain text) : Turns .double text .double :=
  fun next => (h.verbatim next).after

theorem turns_escape (text : String) : Turns .double (escape text) .double := by
  intro next
  rw [escape, String.toList_ofList]
  exact (read_escapeChars text.toList next).2

/-- Outside of quotes a text is taken as it is if it has no quotes of its own either. -/
def Tame (text : String) : Prop := ∀ c ∈ text.toList, isEscaped c = false ∧ c ≠ '\''

instance (text : String) : Decidable (Tame text) := List.decidableBAll _ text.toList

theorem Tame.plain {text : String} (h : Tame text) : Plain text := fun c hc => (h c hc).1

theorem Tame.append {text rest : String} (h : Tame text) (h' : Tame rest) :
    Tame (text ++ rest) := by
  intro c hc
  rw [String.toList_append] at hc
  exact (List.mem_append.1 hc).elim (h c) (h' c)

theorem Tame.turns {text : String} (h : Tame text) : Turns .bare text .bare := by
  unfold Turns
  unfold Tame at h
  generalize text.toList = chars at h
  intro next
  induction chars with
  | nil => rfl
  | cons c rest ih =>
      obtain ⟨hescaped, hsingle⟩ := h c List.mem_cons_self
      obtain ⟨hslash, hquote, htick⟩ := isEscaped_eq_false_iff.1 hescaped
      rw [after]
      simp only [read, hquote, hsingle, htick, hslash, if_false]
      exact ih fun d hd => h d (List.mem_cons_of_mem _ hd)

theorem tame_of_isDigit {c : Char} (h : c.isDigit = true) : isEscaped c = false ∧ c ≠ '\'' := by
  refine ⟨isEscaped_eq_false_iff.2 ⟨?_, ?_, ?_⟩, ?_⟩ <;> rintro rfl <;> cases h

theorem tame_nat (n : Nat) : Tame (toString n) := by
  intro c hc
  have hdigits : (toString n).toList = Nat.toDigits 10 n := String.toList_ofList
  rw [hdigits] at hc
  exact tame_of_isDigit (Nat.isDigit_of_mem_toDigits (by decide) (by decide) hc)

theorem tame_int (n : Int) : Tame (toString n) := by
  cases n with
  | ofNat n => exact tame_nat n
  | negSucc n =>
      have hsign : Tame "-" := by decide
      exact hsign.append (tame_nat (n + 1))

/-! ## Forms of statements -/

/-- A part of a statement: its own text, a name as it is, or an escaped text. -/
inductive Part where
  | own (text : String)
  | name (text : String)
  | escaped (text : String)

/-- A statement by its parts. -/
abbrev Form := List Part

def Part.text : Part → String
  | .own text | .name text => text
  | .escaped text => escape text

namespace Form

def text : Form → String
  | [] => ""
  | part :: rest => part.text ++ text rest

/-- The names that stand in a statement as they are. -/
def names : Form → List String
  | [] => []
  | .name text :: rest => text :: names rest
  | .own _ :: rest | .escaped _ :: rest => names rest

/-- Each name of a statement is escaped or has nothing to be escaped. -/
def Guarded (form : Form) : Prop := ∀ name ∈ names form, Plain name

/-- The character behind a part that stands in front of a form. -/
def head? (form : Form) : Option Char := (text form).toList.head?

/-- The roles as a statement means them: names and escaped texts stand for themselves. -/
def meant (mode : Mode) : Form → List Role
  | [] => []
  | .own text :: rest =>
      roles mode text.toList (head? rest) ++ meant (after mode text.toList (head? rest)) rest
  | .name text :: rest => text.toList.map (fun _ => .literal) ++ meant mode rest
  | .escaped text :: rest => text.toList.flatMap escapeRoles ++ meant mode rest

/-- Names and escaped texts stand between double quotes that the statement has opened. -/
def Placed (mode : Mode) : Form → Prop
  | [] => True
  | .own text :: rest => Placed (after mode text.toList (head? rest)) rest
  | .name _ :: rest | .escaped _ :: rest => mode = .double ∧ Placed mode rest

theorem placed_own {mode mode' : Mode} {text : String} {rest : Form} (h : Turns mode text mode')
    (hrest : Placed mode' rest) : Placed mode (.own text :: rest) := by
  rwa [Placed, h]

/-- A name in quotes that the text in front of it has opened. -/
theorem placed_name {front name back : String} (h : Turns .bare front .double) :
    Placed .bare [.own front, .name name, .own back] := placed_own h ⟨rfl, trivial⟩

theorem placed_escaped {front text back : String} (h : Turns .bare front .double) :
    Placed .bare [.own front, .escaped text, .own back] := placed_own h ⟨rfl, trivial⟩

/-- A shell reads the statement as it is meant. -/
def Reads (form : Form) : Prop := roles .bare (text form).toList none = meant .bare form

instance (form : Form) : Decidable (Reads form) := instDecidableEqList _ _

/-- Each name that stands in a statement as it is stands for itself there. -/
def Literal : Form → Prop
  | [] => True
  | .name text :: rest => Verbatim text.toList (head? rest) ∧ Literal rest
  | .own _ :: rest | .escaped _ :: rest => Literal rest

theorem Guarded.literal {form : Form} (h : Guarded form) : Literal form := by
  induction form with
  | nil => trivial
  | cons part rest ih =>
      cases part with
      | own text => exact ih h
      | name text =>
          obtain ⟨hname, hrest⟩ := List.forall_mem_cons.1 h
          exact ⟨hname.verbatim _, ih hrest⟩
      | escaped text => exact ih h

theorem roles_cons (mode : Mode) (part : Part) (rest : Form) :
    roles mode (text (part :: rest)).toList none =
      roles mode part.text.toList (head? rest) ++
        roles (after mode part.text.toList (head? rest)) (text rest).toList none := by
  rw [text, String.toList_append, roles_append, Option.or_none, head?]

theorem roles_eq_meant_iff {mode : Mode} {form : Form} (h : Placed mode form) :
    roles mode (text form).toList none = meant mode form ↔ Literal form := by
  induction form generalizing mode with
  | nil => simp [text, roles, meant, Literal]
  | cons part rest ih =>
      rw [roles_cons]
      cases part with
      | own text =>
          rw [Part.text, meant, Literal, List.append_cancel_left_eq]
          exact ih h
      | name text =>
          obtain ⟨rfl, hrest⟩ := h
          rw [Part.text, meant, Literal, ← roles_eq_literal_iff]
          -- Both lists give a role to each character, so the name and the rest compare apart; the
          -- rest is read in the mode it is meant in because the name has left the quotes open.
          constructor
          · intro hroles
            obtain ⟨hname, hroles⟩ := List.append_inj hroles (by simp)
            have hafter := (roles_eq_literal_iff.1 hname).after
            rw [hafter] at hroles
            exact ⟨hname, (ih hrest).1 hroles⟩
          · rintro ⟨hname, hliteral⟩
            have hafter := (roles_eq_literal_iff.1 hname).after
            rw [hname, hafter, (ih hrest).2 hliteral]
      | escaped text =>
          obtain ⟨rfl, hrest⟩ := h
          obtain ⟨hroles, hafter⟩ := read_escapeChars text.toList (head? rest)
          rw [Part.text, escape, String.toList_ofList, hroles, hafter, meant, Literal,
            List.append_cancel_left_eq]
          exact ih hrest

/-- A statement is read as it is meant exactly if its names stand for themselves in it. -/
theorem reads_iff {form : Form} (h : Placed .bare form) : Reads form ↔ Literal form :=
  roles_eq_meant_iff h

end Form

/-! ## Statements -/

namespace Node

mutual

/-- The statements of a node, those that open a block included. -/
def statements : Node → List String
  | .line text => [text]
  | .comment _ | .blank | .foreign _ => []
  | .block opener body none _ => opener :: statementsOf body
  | .block opener body (some other) _ => opener :: (statementsOf body ++ statementsOf other)

def statementsOf : List Node → List String
  | [] => []
  | node :: nodes => statements node ++ statementsOf nodes

end

@[simp] theorem statementsOf_nil : statementsOf [] = [] := by
  rw [statementsOf]

@[simp] theorem statementsOf_cons (node : Node) (nodes : List Node) :
    statementsOf (node :: nodes) = statements node ++ statementsOf nodes := by
  rw [statementsOf]

@[simp] theorem statementsOf_append (nodes others : List Node) :
    statementsOf (nodes ++ others) = statementsOf nodes ++ statementsOf others := by
  induction nodes with
  | nil => simp
  | cons node nodes ih => simp [ih]

@[simp] theorem statements_line (text : String) : statements (.line text) = [text] := by
  rw [statements]

@[simp] theorem statements_comment (text : String) : statements (.comment text) = [] := by
  rw [statements]

@[simp] theorem statements_blank : statements .blank = [] := by
  rw [statements]

@[simp] theorem statements_when (opener : String) (body : List Node) :
    statements (.when opener body) = opener :: statementsOf body := by
  rw [when, statements]

@[simp] theorem statements_choice (opener : String) (body other : List Node) :
    statements (.choice opener body other) =
      opener :: (statementsOf body ++ statementsOf other) := by
  rw [choice, statements]

end Node

/-! ## Forms of nodes -/

namespace Form

open Node

/-- Statements in which there is nothing but their own text. -/
def ofNodes (nodes : List Node) : List Form := (statementsOf nodes).map fun text => [.own text]

/-- Each statement puts its parts between quotes that it has opened. -/
def AllPlaced (forms : List Form) : Prop := ∀ form ∈ forms, Placed .bare form

@[simp] theorem map_text_ofNodes (nodes : List Node) :
    (ofNodes nodes).map text = statementsOf nodes := by
  simp [ofNodes, Function.comp_def, text, Part.text]

@[simp] theorem flatMap_names_ofNodes (nodes : List Node) : (ofNodes nodes).flatMap names = [] := by
  simp [ofNodes, List.flatMap_map, names]

@[simp] theorem allPlaced_ofNodes (nodes : List Node) : AllPlaced (ofNodes nodes) := by
  intro form hform
  obtain ⟨text, -, rfl⟩ := List.mem_map.1 hform
  trivial

@[simp] theorem allPlaced_nil : AllPlaced [] := nofun

@[simp] theorem allPlaced_cons {form : Form} {forms : List Form} :
    AllPlaced (form :: forms) ↔ Placed .bare form ∧ AllPlaced forms := List.forall_mem_cons

@[simp] theorem allPlaced_append {forms others : List Form} :
    AllPlaced (forms ++ others) ↔ AllPlaced forms ∧ AllPlaced others := List.forall_mem_append

/-- Forms with the statements of some nodes, placed well if their surroundings are settled. -/
structure Shows (settled : Prop) (nodes : List Node) (forms : List Form) : Prop where
  texts : forms.map text = statementsOf nodes
  placed : settled → AllPlaced forms

namespace Shows

variable {settled : Prop} {nodes others : List Node} {forms forms' : List Form}

theorem ofNodes (nodes : List Node) : Shows settled nodes (ofNodes nodes) :=
  ⟨map_text_ofNodes nodes, fun _ => allPlaced_ofNodes nodes⟩

theorem mono {settled' : Prop} (h : Shows settled nodes forms) (hsettled : settled' → settled) :
    Shows settled' nodes forms := ⟨h.texts, fun hsettled' => h.placed (hsettled hsettled')⟩

theorem append (h : Shows settled nodes forms) (h' : Shows settled others forms') :
    Shows settled (nodes ++ others) (forms ++ forms') := by
  refine ⟨?_, fun hsettled => allPlaced_append.2 ⟨h.placed hsettled, h'.placed hsettled⟩⟩
  rw [List.map_append, statementsOf_append, h.texts, h'.texts]

theorem flatMap {entries : List α} {node : α → Node} {form : α → List Form}
    (h : ∀ entry ∈ entries, Shows settled [node entry] (form entry)) :
    Shows settled (entries.map node) (entries.flatMap form) := by
  induction entries with
  | nil => exact ⟨by simp, fun _ => allPlaced_nil⟩
  | cons entry entries ih =>
      obtain ⟨hentry, hentries⟩ := List.forall_mem_cons.1 h
      exact hentry.append (ih hentries)

end Shows

end Form

end Playbook.Shell
