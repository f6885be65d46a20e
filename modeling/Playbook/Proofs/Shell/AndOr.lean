import Mathlib.Data.List.DropRight

/-!
# Lists of commands

A shell splits a text into words and operators and reads simple commands that
`&&` and `||` join as a list. Each connective goes by the status so far, from
the left, and an exclamation mark turns the status of the command behind it
only, not that of the list.
-/

namespace Playbook.Shell

/-! ## Words and operators -/

/-- What is open in a word. -/
inductive Frame where
  /-- A backslash, for one character. -/
  | guard
  /-- A dollar sign, which may begin an expansion. -/
  | dollar
  | single
  /-- Single quotes behind a dollar sign, in which a backslash guards. -/
  | ansi
  | double
  | backtick
  /-- A command between parentheses. -/
  | substitution
  /-- A parameter between braces. -/
  | expansion
deriving DecidableEq

namespace Frame

/-- Single quotes stand for themselves in double quotes and in an expansion there. -/
def isDouble : List Frame → Bool
  | .double :: _ => true
  | .expansion :: outer => isDouble outer
  | _ => false

def enter (c : Char) (frames : List Frame) : List Frame :=
  if c = '\\' then .guard :: frames
  else if c = '$' then .dollar :: frames
  else if c = '"' then .double :: frames
  else if c = '\x60' then .backtick :: frames
  else if c = '\'' && !isDouble frames then .single :: frames
  else frames

/-- What is open behind a character. -/
def turn (c : Char) : List Frame → List Frame
  | [] => enter c []
  | .guard :: outer => outer
  | .dollar :: outer =>
      if c = '(' then .substitution :: outer
      else if c = '{' then .expansion :: outer
      else if c = '\'' && !isDouble outer then .ansi :: outer
      else if c = '$' then outer
      else turn c outer
  | .single :: outer => if c = '\'' then outer else .single :: outer
  | .ansi :: outer =>
      if c = '\'' then outer
      else if c = '\\' then .guard :: .ansi :: outer
      else .ansi :: outer
  | .double :: outer => if c = '"' then outer else enter c (.double :: outer)
  | .backtick :: outer =>
      if c = '\x60' then outer
      else if c = '\\' then .guard :: .backtick :: outer
      else .backtick :: outer
  | .substitution :: outer =>
      if c = ')' then outer
      else if c = '(' then .substitution :: .substitution :: outer
      else enter c (.substitution :: outer)
  | .expansion :: outer => if c = '}' then outer else enter c (.expansion :: outer)

end Frame

inductive Token where
  | word (text : List Char)
  | operator (text : List Char)
deriving DecidableEq

def operators : List (List Char) :=
  ["\n", "&", "&&", "|", "||", "|&", ";", ";;", ";&", ";;&", "(", ")", "<", "<<", "<<-", "<<<",
    "<&", "<>", ">", ">>", ">&", ">|", "&>", "&>>"].map String.toList

/-- What a text has begun and not ended. -/
inductive Pending where
  | nothing
  | word (text : List Char) (frames : List Frame)
  | operator (text : List Char)
  | comment
deriving DecidableEq

def isSpacing (c : Char) : Bool := c = ' ' || c = '\t'

namespace Pending

def start (c : Char) : Pending :=
  if isSpacing c then .nothing
  else if c = '#' then .comment
  else if [c] ∈ operators then .operator [c]
  else .word [c] (Frame.turn c [])

/-- Blanks and operators end a word in which nothing is open. -/
def endsWord (frames : List Frame) (c : Char) : Bool :=
  match frames with
  | [] => isSpacing c || decide ([c] ∈ operators)
  | [.dollar] => c != '(' && (isSpacing c || decide ([c] ∈ operators))
  | _ => false

/-- The tokens that a character ends, and what is begun behind it. -/
def step (pending : Pending) (c : Char) : List Token × Pending :=
  match pending with
  | .nothing => ([], start c)
  | .comment => ([], if c = '\n' then .operator [c] else .comment)
  | .operator text =>
      -- A process substitution is a word that begins like a redirection.
      if (text = ['<'] ∨ text = ['>']) ∧ c = '(' then ([], .word (text ++ [c]) [.substitution])
      else if text ++ [c] ∈ operators then ([], .operator (text ++ [c]))
      else ([.operator text], start c)
  | .word text frames =>
      if endsWord frames c then ([.word text], start c)
      else if c = '\n' ∧ frames.head? = some .guard then
        -- A line goes on behind a backslash.
        ([], if text.dropLast = [] then .nothing else .word text.dropLast frames.tail)
      else ([], .word (text ++ [c]) (Frame.turn c frames))

def steps (pending : Pending) : List Char → List Token × Pending
  | [] => ([], pending)
  | c :: text =>
      let (tokens, next) := pending.step c
      let (others, last) := next.steps text
      (tokens ++ others, last)

/-- The last word, if nothing is open in it; an operator needs something behind it. -/
def finish : Pending → Option (List Token)
  | .nothing => some []
  | .word text frames => if endsWord frames ';' then some [.word text] else none
  | _ => none

theorem steps_append (pending : Pending) (text rest : List Char) :
    pending.steps (text ++ rest) =
      ((pending.steps text).1 ++ ((pending.steps text).2.steps rest).1,
        ((pending.steps text).2.steps rest).2) := by
  induction text generalizing pending with
  | nil => simp [steps]
  | cons c text ih => simp [steps, ih]

/-- A semicolon ends what could also end with the text. -/
theorem step_semicolon {pending : Pending} {last : List Token}
    (h : pending.finish = some last) :
    pending.step ';' = (last, .operator [';']) := by
  cases pending with
  | nothing =>
      cases h
      rfl
  | word text frames =>
      simp only [finish, Option.ite_none_right_eq_some, Option.some.injEq] at h
      obtain ⟨hends, rfl⟩ := h
      rw [step, if_pos hends]
      rfl
  | operator text => cases h
  | comment => cases h

end Pending

/-- The words and operators of a text that ends where a word may end. -/
def tokens? (text : String) : Option (List Token) :=
  let (tokens, pending) := Pending.nothing.steps text.toList
  pending.finish.map (tokens ++ ·)

/-! ## Lists -/

inductive Connective where
  | and
  | or
deriving DecidableEq

def Token.connective? (token : Token) : Option Connective :=
  if token = .operator ['&', '&'] then some .and
  else if token = .operator ['|', '|'] then some .or
  else none

/-- The tokens up to each connective; lines may end behind one. -/
def clauses : List Token → List Token × List (Connective × List Token)
  | [] => ([], [])
  | token :: tokens =>
      let (first, rest) := clauses tokens
      match token.connective? with
      | some connective =>
          ([], (connective, first.dropWhile (· = .operator ['\n'])) :: rest)
      | none => (token :: first, rest)

/-- Words that mean something else than a command where a command may stand. -/
def isReserved (word : List Char) : Bool :=
  word ∈ ["!", "case", "coproc", "do", "done", "elif", "else", "esac", "fi", "for", "function",
    "if", "in", "select", "then", "time", "until", "while", "\x7b", "\x7d", "[["].map String.toList

def isRedirection (operator : List Char) : Bool :=
  operator ∈ ["<", "<<<", "<&", "<>", ">", ">>", ">&", ">|", "&>", "&>>"].map String.toList

/-- Words, and redirections with the word that each of them has behind it. -/
def arePlain : List Token → Bool
  | [] => true
  | .word _ :: tokens => arePlain tokens
  | .operator text :: .word _ :: tokens => isRedirection text && arePlain tokens
  | .operator _ :: _ => false

def isSimple (tokens : List Token) : Bool :=
  match tokens with
  | [] => false
  | .word text :: rest => !isReserved text && arePlain rest
  | tokens => arePlain tokens

/-- A simple command, whose status may be turned. -/
structure Pipeline where
  negated : Bool
  command : List Token
deriving DecidableEq

namespace Pipeline

def negate (pipeline : Pipeline) : Pipeline := { pipeline with negated := !pipeline.negated }

def bang : Token := .word ['!']

def read : List Token → Option Pipeline
  | [] => none
  | token :: tokens =>
      if token = bang then (read tokens).map negate
      else if isSimple (token :: tokens) then some ⟨false, token :: tokens⟩
      else none

end Pipeline

/-- A list of commands with the connectives between them. -/
structure AndOr where
  first : Pipeline
  rest : List (Connective × Pipeline)
deriving DecidableEq

namespace AndOr

def read (tokens : List Token) : Option AndOr := do
  let (first, rest) := clauses tokens
  let first ← Pipeline.read first
  let rest ← rest.mapM fun (connective, tokens) =>
    (Pipeline.read tokens).map (connective, ·)
  return ⟨first, rest⟩

def ofText (text : String) : Option AndOr := (tokens? text).bind read

/-- The tokens between `if` and `; then`. -/
def condition? (tokens : List Token) : Option (List Token) :=
  match tokens with
  | [] => none
  | keyword :: rest =>
      if keyword = .word ['i', 'f'] ∧
          [.operator [';'], .word ['t', 'h', 'e', 'n']] <:+ rest then
        some (rest.rdrop 2)
      else none

/-- The list that the head of a conditional tests. -/
def ofOpener (opener : String) : Option AndOr :=
  (tokens? opener).bind fun tokens => (condition? tokens).bind read

/-- An exclamation mark in front of a list belongs to its first command. -/
def negateFirst (list : AndOr) : AndOr := { list with first := list.first.negate }

theorem read_bang (tokens : List Token) :
    read (Pipeline.bang :: tokens) = (read tokens).map negateFirst := by
  unfold read
  rw [clauses]
  have hbang : Pipeline.bang.connective? = none := rfl
  simp only [hbang, Pipeline.read, if_true]
  cases hfirst : Pipeline.read (clauses tokens).1 with
  | none => simp
  | some first =>
      cases hrest : (clauses tokens).2.mapM fun (connective, tokens) =>
          (Pipeline.read tokens).map (connective, ·) <;>
        simp [negateFirst]

/-- What stands between `if` and `; then` is read as it is on its own. -/
theorem tokens?_opener {head cmd : String} {front tokens : List Token}
    (hhead : Pending.nothing.steps head.toList = (front, .nothing))
    (hcmd : tokens? cmd = some tokens) :
    tokens? (head ++ cmd ++ "; then") =
      some (front ++ tokens ++ [.operator [';'], .word ['t', 'h', 'e', 'n']]) := by
  obtain ⟨last, hlast, rfl⟩ := Option.map_eq_some_iff.1 hcmd
  have hsemicolon := Pending.step_semicolon hlast
  have hthen : (Pending.operator [';']).steps [' ', 't', 'h', 'e', 'n'] =
      ([.operator [';']], .word ['t', 'h', 'e', 'n'] []) := by decide
  have htail : "; then".toList = ';' :: [' ', 't', 'h', 'e', 'n'] := by decide
  unfold tokens?
  rw [String.toList_append, String.toList_append, Pending.steps_append, Pending.steps_append,
    hhead, htail, Pending.steps, hsemicolon]
  simp [hthen, Pending.finish, Pending.endsWord, operators]

theorem condition?_opener (tokens : List Token) :
    condition? (.word ['i', 'f'] :: tokens ++ [.operator [';'], .word ['t', 'h', 'e', 'n']]) =
      some tokens := by
  rw [List.cons_append, condition?, if_pos ⟨rfl, List.suffix_append ..⟩]
  exact congrArg some (List.rdrop_append_length ..)

theorem ofOpener_if {cmd : String} {list : AndOr} (h : ofText cmd = some list) :
    ofOpener ("if " ++ cmd ++ "; then") = some list := by
  obtain ⟨tokens, htokens, hread⟩ := Option.bind_eq_some_iff.1 h
  have hhead : Pending.nothing.steps "if ".toList = ([.word ['i', 'f']], .nothing) := by decide
  rw [ofOpener, tokens?_opener hhead htokens, Option.bind_some, List.singleton_append,
    condition?_opener, Option.bind_some, hread]

/-- A test that an exclamation mark begins turns its first command only. -/
theorem ofOpener_if_not {cmd : String} {list : AndOr} (h : ofText cmd = some list) :
    ofOpener ("if ! " ++ cmd ++ "; then") = some list.negateFirst := by
  obtain ⟨tokens, htokens, hread⟩ := Option.bind_eq_some_iff.1 h
  have hhead : Pending.nothing.steps "if ! ".toList =
      ([.word ['i', 'f'], Pipeline.bang], .nothing) := by decide
  have hfront : [Token.word ['i', 'f'], Pipeline.bang] ++ tokens =
      .word ['i', 'f'] :: Pipeline.bang :: tokens := rfl
  rw [ofOpener, tokens?_opener hhead htokens, Option.bind_some, hfront, condition?_opener,
    Option.bind_some, read_bang, hread, Option.map_some]

end AndOr

/-! ## Statuses -/

/-- The status of a command, turned if an exclamation mark stands in front; zero is success. -/
def Pipeline.status (pipeline : Pipeline) (status : Nat) : Nat :=
  if pipeline.negated then if status = 0 then 1 else 0 else status

/-- A command runs behind a connective if the status so far asks for it. -/
def Connective.runs (connective : Connective) (status : Nat) : Bool :=
  match connective with
  | .and => status = 0
  | .or => status ≠ 0

namespace Connective

/-- The status behind a command that would return the given one. -/
def join (connective : Connective) (sofar status : Nat) : Nat :=
  if connective.runs sofar then status else sofar

theorem runs_congr (connective : Connective) {status other : Nat} (h : status = 0 ↔ other = 0) :
    connective.runs status = connective.runs other := by
  cases connective <;> simp [runs, h]

/-- A command that lets a like connective go on leaves the outcome as it is. -/
theorem join_of_runs {connective : Connective} {sofar status : Nat}
    (h : connective.runs status = true) : connective.join sofar status = 0 ↔ sofar = 0 := by
  cases connective <;> simp only [join, runs, decide_eq_true_eq] at * <;> split <;> omega

/-- Any other command decides the outcome, whether or not it runs. -/
theorem join_of_not_runs {connective : Connective} {sofar status : Nat}
    (h : ¬ connective.runs status = true) : connective.join sofar status = 0 ↔ status = 0 := by
  cases connective <;> simp only [join, runs, decide_eq_true_eq] at * <;> split <;> omega

end Connective

namespace AndOr

variable {statuses : Nat → Nat}

/-- The status of the rest of a list, given the status and the number of the commands so far. -/
def statusFrom (statuses : Nat → Nat) (sofar place : Nat) :
    List (Connective × Pipeline) → Nat
  | [] => sofar
  | (connective, pipeline) :: rest =>
      statusFrom statuses (connective.join sofar (pipeline.status (statuses place)))
        (place + 1) rest

/-- The status of a list whose commands, if they run, return the given ones by their places. -/
def status (statuses : Nat → Nat) (list : AndOr) : Nat :=
  statusFrom statuses (list.first.status (statuses 0)) 1 list.rest

/-- No command behind the first one makes a difference to the status, run or not. -/
def Neutral (statuses : Nat → Nat) (rest : List (Connective × Pipeline)) (place : Nat) : Prop :=
  ∀ entry ∈ rest.zipIdx place, entry.1.1.runs (entry.1.2.status (statuses entry.2)) = true

theorem neutral_cons {connective : Connective} {pipeline : Pipeline}
    {rest : List (Connective × Pipeline)} {place : Nat} :
    Neutral statuses ((connective, pipeline) :: rest) place ↔
      connective.runs (pipeline.status (statuses place)) = true ∧
        Neutral statuses rest (place + 1) := by
  simp [Neutral, List.zipIdx_cons]

/-- The outcome of a list depends on the outcome so far only. -/
theorem statusFrom_congr {sofar other place : Nat} {rest : List (Connective × Pipeline)}
    (h : sofar = 0 ↔ other = 0) :
    statusFrom statuses sofar place rest = 0 ↔ statusFrom statuses other place rest = 0 := by
  induction rest generalizing sofar other place with
  | nil => exact h
  | cons entry rest ih =>
      refine ih ?_
      rw [Connective.join, Connective.join, entry.1.runs_congr h]
      split
      · rfl
      · exact h

/-- Where the outcome so far is turned, that of the list is, as long as the rest is neutral. -/
theorem statusFrom_turned_iff {sofar other place : Nat} {rest : List (Connective × Pipeline)}
    (h : sofar = 0 ↔ other ≠ 0) :
    (statusFrom statuses sofar place rest = 0 ↔ statusFrom statuses other place rest ≠ 0) ↔
      Neutral statuses rest place := by
  induction rest generalizing sofar other place with
  | nil => simp [statusFrom, Neutral, h]
  | cons entry rest ih =>
      rw [statusFrom, statusFrom, neutral_cons]
      by_cases hruns : entry.1.runs (entry.2.status (statuses place)) = true
      · refine (ih ?_).trans (and_iff_right hruns).symm
        rw [Connective.join_of_runs hruns, ne_eq, Connective.join_of_runs hruns]
        exact h
      · -- From here on the two are the same, so that one cannot be the other turned.
        have hsame : entry.1.join sofar (entry.2.status (statuses place)) = 0 ↔
            entry.1.join other (entry.2.status (statuses place)) = 0 :=
          (Connective.join_of_not_runs hruns).trans (Connective.join_of_not_runs hruns).symm
        rw [statusFrom_congr hsame]
        simp [hruns]

theorem status_negateFirst_turned_iff (list : AndOr) :
    (list.negateFirst.status statuses = 0 ↔ list.status statuses ≠ 0) ↔
      Neutral statuses list.rest 1 := by
  refine statusFrom_turned_iff ?_
  unfold Pipeline.status negateFirst Pipeline.negate
  cases list.first.negated <;> simp

/-- Some statuses make any command behind the first one decide the outcome. -/
theorem forall_neutral_iff (place : Nat) {rest : List (Connective × Pipeline)} :
    (∀ statuses, Neutral statuses rest place) ↔ rest = [] := by
  constructor
  · intro h
    rcases rest with _ | ⟨⟨connective, pipeline⟩, rest⟩
    · rfl
    · have hsuccess := (neutral_cons.1 (h fun _ => 0)).1
      have hfailure := (neutral_cons.1 (h fun _ => 1)).1
      cases connective <;> cases hnegated : pipeline.negated <;>
        simp [Connective.runs, Pipeline.status, hnegated] at hsuccess hfailure
  · rintro rfl statuses
    simp [Neutral]

end AndOr

end Playbook.Shell
