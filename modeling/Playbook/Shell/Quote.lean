/-!
# Shell quoting

`escape` prepares text for a double-quoted string of a script: a backslash
goes in front of each backslash, double quote and backtick. The dollar sign
is left alone, so that references are still expanded. `single` writes a word
in single quotes.
-/

namespace Playbook.Shell

def isEscaped (c : Char) : Bool := c == '\\' || c == '"' || c == '\x60'

def escapeChar (c : Char) : List Char := if isEscaped c then ['\\', c] else [c]

def escapeChars (text : List Char) : List Char := text.flatMap escapeChar

def escape (text : String) : String := String.ofList (escapeChars text.toList)

/-- Inside single quotes only the quote itself needs care: close, escape it, open again. -/
def singleChar (c : Char) : List Char := if c = '\'' then ['\'', '\\', '\'', '\''] else [c]

def singleChars (text : List Char) : List Char := '\'' :: text.flatMap singleChar ++ ['\'']

def single (text : String) : String := String.ofList (singleChars text.toList)

end Playbook.Shell
