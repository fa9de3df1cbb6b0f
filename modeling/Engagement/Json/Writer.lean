import Engagement.Decimal
import Engagement.Json.Basic

/-! # Writing data text

One line without blanks, or indented by two spaces a level. Object fields are written in the order
in which they stand.
-/

namespace Engagement

namespace Number

def text : Number → String
  | .int n => toString n
  | .float x => x.text

end Number

namespace Json

def hexDigit (n : Nat) : Char := if n < 10 then Char.ofNat (48 + n) else Char.ofNat (87 + n)

/-- A character inside a quoted text. -/
def quoteChar (c : Char) : List Char :=
  match c with
  | '"' => ['\\', '"']
  | '\\' => ['\\', '\\']
  | '\n' => ['\\', 'n']
  | '\r' => ['\\', 'r']
  | '\t' => ['\\', 't']
  | '\x08' => ['\\', 'b']
  | '\x0c' => ['\\', 'f']
  | c =>
    if c.toNat < 0x20 then
      ['\\', 'u', '0', '0', hexDigit (c.toNat / 16), hexDigit (c.toNat % 16)]
    else [c]

def quote (s : String) : String :=
  String.ofList ('"' :: s.toList.flatMap quoteChar ++ ['"'])

mutual

/-- The value on one line. -/
def compact : Json → String
  | .null => "null"
  | .bool true => "true"
  | .bool false => "false"
  | .number n => n.text
  | .string s => quote s
  | .array items => "[" ++ ",".intercalate (compactItems items) ++ "]"
  | .object fields => "\x7b" ++ ",".intercalate (compactFields fields) ++ "\x7d"

def compactItems : List Json → List String
  | [] => []
  | x :: xs => compact x :: compactItems xs

def compactFields : List (String × Json) → List String
  | [] => []
  | (k, x) :: xs => (quote k ++ ":" ++ compact x) :: compactFields xs

end

def indentation (level : Nat) : String := String.ofList (List.replicate (2 * level) ' ')

/-- A bracketed block of lines; an empty one is just its brackets. -/
def block (opening closing : String) (level : Nat) (lines : List String) : String :=
  if lines.isEmpty then opening ++ closing
  else
    let inner := "\n" ++ indentation (level + 1)
    opening ++ inner ++ ("," ++ inner).intercalate lines ++ "\n" ++ indentation level ++ closing

mutual

/-- The value over several lines, starting at a level of indentation. -/
def pretty (level : Nat) : Json → String
  | .null => "null"
  | .bool true => "true"
  | .bool false => "false"
  | .number n => n.text
  | .string s => quote s
  | .array items => block "[" "]" level (prettyItems (level + 1) items)
  | .object fields => block "\x7b" "\x7d" level (prettyFields (level + 1) fields)

def prettyItems (level : Nat) : List Json → List String
  | [] => []
  | x :: xs => pretty level x :: prettyItems level xs

def prettyFields (level : Nat) : List (String × Json) → List String
  | [] => []
  | (k, x) :: xs => (quote k ++ ": " ++ pretty level x) :: prettyFields level xs

end

end Json

end Engagement
