import Engagement.Json.Basic

/-! # Reading data text

Two machines, one run after the other. The lexer takes one character at a time and yields tokens;
the builder takes one token at a time and keeps the containers that are still open. A text is
refused as a whole: there are no positions and no repairs.
-/

namespace Engagement

namespace Json

inductive Token where
  | openArray | closeArray | openObject | closeObject | comma | colon
  | scalar (value : Json)
  | name (text : String)

namespace Lexer

/-! Numbers. The significand is kept to sixty-four bits; digits beyond them only move the
exponent. -/

def digit? (c : Char) : Option Nat := if c.isDigit then some (c.toNat - '0'.toNat) else none

/-- The largest significand kept. -/
def significandMax : Nat := twoTo 64 - 1

/-- Whole digits: the significand, and how many digits no longer fit into it. -/
def whole (ds : List Char) : Nat × Nat :=
  ds.foldl (fun (m, dropped) c =>
    let next := m * 10 + (c.toNat - '0'.toNat)
    if dropped = 0 ∧ next ≤ significandMax then (next, 0) else (m, dropped + 1)) (0, 0)

/-- Fraction digits appended to a significand, up to the first that does not fit. -/
def fraction (m : Nat) : List Char → Nat × Nat
  | [] => (m, 0)
  | c :: cs =>
    let next := m * 10 + (c.toNat - '0'.toNat)
    if next ≤ significandMax then
      let (n, places) := fraction next cs
      (n, places + 1)
    else (m, 0)

/-- The exponent part of a number, from its `e` on. -/
def exponent? : List Char → Option Int
  | [] => some 0
  | e :: rest =>
    if e = 'e' ∨ e = 'E' then
      let (negative, ds) := match rest with
        | '+' :: ds => (false, ds)
        | '-' :: ds => (true, ds)
        | ds => (false, ds)
      if ds ≠ [] ∧ ds.all Char.isDigit then
        let n : Nat := ds.foldl (fun n c => n * 10 + (c.toNat - '0'.toNat)) 0
        some (if negative then -(n : Int) else n)
      else none
    else none

/-- A number without its sign. -/
def magnitude? (negative : Bool) (cs : List Char) : Option Number := do
  let ds := cs.takeWhile Char.isDigit
  let rest := cs.dropWhile Char.isDigit
  guard (ds ≠ [] ∧ (ds.length = 1 ∨ ds.head? ≠ some '0'))
  let (m, dropped) := whole ds
  match rest with
  | [] =>
    if dropped = 0 ∧ negative = false then some (.int m)
    else if dropped = 0 ∧ m ≠ 0 ∧ m ≤ twoTo 63 then some (.int (-(m : Int)))
    else (Binary64.ofDecimal? negative m dropped).map .float
  | '.' :: tail =>
    let fs := tail.takeWhile Char.isDigit
    guard (fs ≠ [])
    let (n, places) := fraction m fs
    let e ← exponent? (tail.dropWhile Char.isDigit)
    (Binary64.ofDecimal? negative n (e + dropped - places)).map .float
  | tail => do
    let e ← exponent? tail
    (Binary64.ofDecimal? negative m (e + dropped)).map .float

def number? : List Char → Option Number
  | '-' :: cs => magnitude? true cs
  | cs => magnitude? false cs

/-- The value of a run of letters, digits and signs. -/
def word? (cs : List Char) : Option Json :=
  if cs = ['n', 'u', 'l', 'l'] then some .null
  else if cs = ['t', 'r', 'u', 'e'] then some (.bool true)
  else if cs = ['f', 'a', 'l', 's', 'e'] then some (.bool false)
  else (number? cs).map .number

/-- Where the lexer stands; texts are collected in reverse. -/
inductive State where
  | between
  | word (letters : List Char)
  | text (letters : List Char)
  | escaped (letters : List Char)
  | unit (letters : List Char) (lead : Option Nat) (value left : Nat)
  | lead (letters : List Char) (value : Nat)
  | leadEscaped (letters : List Char) (value : Nat)

def hexDigit? (c : Char) : Option Nat :=
  if '0' ≤ c ∧ c ≤ '9' then some (c.toNat - '0'.toNat)
  else if 'a' ≤ c ∧ c ≤ 'f' then some (c.toNat - 'a'.toNat + 10)
  else if 'A' ≤ c ∧ c ≤ 'F' then some (c.toNat - 'A'.toNat + 10)
  else none

def escape? : Char → Option Char
  | '"' => some '"'
  | '\\' => some '\\'
  | '/' => some '/'
  | 'b' => some '\x08'
  | 'f' => some '\x0c'
  | 'n' => some '\n'
  | 'r' => some '\r'
  | 't' => some '\t'
  | _ => none

/-- A finished four-digit escape. A leading surrogate waits for its partner; a surrogate alone is
refused. -/
def unitState? (letters : List Char) (lead : Option Nat) (value : Nat) : Option State :=
  match lead with
  | none =>
    if 0xD800 ≤ value ∧ value < 0xDC00 then some (.lead letters value)
    else if 0xDC00 ≤ value ∧ value < 0xE000 then none
    else some (.text (Char.ofNat value :: letters))
  | some high =>
    if 0xDC00 ≤ value ∧ value < 0xE000 then
      some (.text (Char.ofNat ((high - 0xD800) * 0x400 + (value - 0xDC00) + 0x10000) :: letters))
    else none

def isBlank (c : Char) : Bool := c = ' ' ∨ c = '\n' ∨ c = '\t' ∨ c = '\r'

/-- A character between values and texts. -/
def outside? (tokens : List Token) (c : Char) : Option (State × List Token) :=
  if isBlank c then some (.between, tokens)
  else match c with
    | '[' => some (.between, .openArray :: tokens)
    | ']' => some (.between, .closeArray :: tokens)
    | '{' => some (.between, .openObject :: tokens)
    | '}' => some (.between, .closeObject :: tokens)
    | ',' => some (.between, .comma :: tokens)
    | ':' => some (.between, .colon :: tokens)
    | '"' => some (.text [], tokens)
    | c => some (.word [c], tokens)

def isWordLetter (c : Char) : Bool := c.isAlphanum || c = '+' || c = '-' || c = '.'

/-- One character; tokens are collected in reverse. -/
def step? : State × List Token → Char → Option (State × List Token)
  | (.between, tokens), c => outside? tokens c
  | (.word cs, tokens), c =>
    if isWordLetter c then some (.word (c :: cs), tokens)
    else do
      let value ← word? cs.reverse
      outside? (.scalar value :: tokens) c
  | (.text cs, tokens), c =>
    if c = '"' then some (.between, .name (String.ofList cs.reverse) :: tokens)
    else if c = '\\' then some (.escaped cs, tokens)
    else if c.toNat < 0x20 then none
    else some (.text (c :: cs), tokens)
  | (.escaped cs, tokens), c =>
    if c = 'u' then some (.unit cs none 0 4, tokens)
    else (escape? c).map fun d => (.text (d :: cs), tokens)
  | (.unit cs lead value left, tokens), c => do
    let d ← hexDigit? c
    let value := value * 16 + d
    if left ≤ 1 then (unitState? cs lead value).map fun s => (s, tokens)
    else some (.unit cs lead value (left - 1), tokens)
  | (.lead cs value, tokens), c => if c = '\\' then some (.leadEscaped cs value, tokens) else none
  | (.leadEscaped cs value, tokens), c =>
    if c = 'u' then some (.unit cs (some value) 0 4, tokens) else none

end Lexer

/-- The tokens of a text. -/
def tokens? (text : String) : Option (List Token) := do
  match ← text.toList.foldlM Lexer.step? (.between, []) with
  | (.between, tokens) => some tokens.reverse
  | (.word cs, tokens) =>
    let value ← Lexer.word? cs.reverse
    some (Token.scalar value :: tokens).reverse
  | _ => none

namespace Builder

/-- An open container; its contents are collected in reverse. -/
inductive Frame where
  | array (items : List Json)
  | object (fields : Fields) (name : String)

/-- What may come next. -/
inductive State where
  | value (frames : List Frame)
  | firstItem (frames : List Frame)
  | firstName (frames : List Frame)
  | name (frames : List Frame) (fields : Fields)
  | colon (frames : List Frame) (fields : Fields) (name : String)
  | separator (frames : List Frame)
  | done (value : Json)

/-- Containers within one another, at most. -/
def depthLimit : Nat := 127

def finish (value : Json) : List Frame → State
  | [] => .done value
  | .array items :: rest => .separator (.array (value :: items) :: rest)
  | .object fields name :: rest => .separator (.object ((name, value) :: fields) name :: rest)

/-- The first token of a value. -/
def open? (frames : List Frame) : Token → Option State
  | .scalar value => some (finish value frames)
  | .name text => some (finish (.string text) frames)
  | .openArray => if frames.length < depthLimit then some (.firstItem frames) else none
  | .openObject => if frames.length < depthLimit then some (.firstName frames) else none
  | _ => none

def step? : State → Token → Option State
  | .value frames, t => open? frames t
  | .firstItem frames, .closeArray => some (finish (.array []) frames)
  | .firstItem frames, t => open? (.array [] :: frames) t
  | .firstName frames, .closeObject => some (finish (.object []) frames)
  | .firstName frames, .name text => some (.colon frames [] text)
  | .name frames fields, .name text => some (.colon frames fields text)
  | .colon frames fields name, .colon => some (.value (.object fields name :: frames))
  | .separator (.array items :: rest), .comma => some (.value (.array items :: rest))
  | .separator (.array items :: rest), .closeArray => some (finish (.array items.reverse) rest)
  | .separator (.object fields _ :: rest), .comma => some (.name rest fields)
  | .separator (.object fields _ :: rest), .closeObject =>
    some (finish (.object fields.reverse) rest)
  | _, _ => none

end Builder

/-- The value of a text as written: fields in their order, repeated names kept. -/
def read? (text : String) : Option Json := do
  match ← (← tokens? text).foldlM Builder.step? (.value []) with
  | .done value => some value
  | _ => none

/-- Reads and decodes a document. A declared field that is written twice is an error; where a name
is repeated in free data, the last value counts. -/
def readAs? {α : Type} (decode : Json → Option α) (text : String) : Option α := do
  let j ← read? text
  let _ ← decode j
  decode j.canonical

end Json

end Engagement
