import Engagement.Json.Record
import Engagement.Time.Calendar
import Engagement.Time.Instant

/-! # Timestamps

Reading takes a date, a time of day and a zone, leniently about blanks and the number of digits;
writing gives the instant in UTC with no more than the needed groups of three fraction digits.
-/

namespace Engagement

namespace Timestamp

def isBlank (c : Char) : Bool :=
  (0x09 ≤ c.toNat && c.toNat ≤ 0x0D) || c.toNat = 0x20 || c.toNat = 0x85 || c.toNat = 0xA0 ||
  c.toNat = 0x1680 || (0x2000 ≤ c.toNat && c.toNat ≤ 0x200A) || c.toNat = 0x2028 ||
  c.toNat = 0x2029 || c.toNat = 0x202F || c.toNat = 0x205F || c.toNat = 0x3000

def skipBlanks (cs : List Char) : List Char := cs.dropWhile isBlank

def value (ds : List Char) : Nat := ds.foldl (fun n c => n * 10 + (c.toNat - '0'.toNat)) 0

/-- A number of at least one and at most `width` digits. -/
def number? (width : Nat) (cs : List Char) : Option (Nat × List Char) :=
  let ds := (cs.take width).takeWhile Char.isDigit
  if ds = [] then none else some (value ds, cs.drop ds.length)

/-- A number in `[low, high]`, which blanks may precede. -/
def field? (low high : Nat) (cs : List Char) : Option (Nat × List Char) := do
  let (n, rest) ← number? 2 (skipBlanks cs)
  if low ≤ n ∧ n ≤ high then some (n, rest) else none

/-- A character, which blanks may precede. -/
def char? (c : Char) (cs : List Char) : Option (List Char) :=
  match skipBlanks cs with
  | d :: rest => if d = c then some rest else none
  | [] => none

/-- A year: up to four digits, or any number of them after a sign. -/
def year? (cs : List Char) : Option (Int × List Char) :=
  match skipBlanks cs with
  | '-' :: rest => (number? rest.length rest).map fun (n, rest) => (-(n : Int), rest)
  | '+' :: rest => (number? rest.length rest).map fun (n, rest) => ((n : Int), rest)
  | rest => (number? 4 rest).map fun (n, rest) => ((n : Int), rest)

def date? (cs : List Char) : Option (CivilDate × List Char) := do
  let (year, cs) ← year? cs
  let cs ← char? '-' cs
  let (month, cs) ← field? 1 12 cs
  let cs ← char? '-' cs
  let (day, cs) ← field? 1 31 cs
  let date : CivilDate := ⟨year, month, day⟩
  if date.isValid then some (date, cs) else none

/-- Fraction digits after a point; those beyond the ninth are ignored. -/
def fraction? : List Char → Option (Nat × List Char)
  | '.' :: cs =>
    let ds := (cs.take 9).takeWhile Char.isDigit
    if ds = [] then none
    else some (value ds * tenTo (9 - ds.length), (cs.drop ds.length).dropWhile Char.isDigit)
  | cs => some (0, cs)

/-- Second of the day and nanoseconds; a sixtieth second is a leap second. -/
def timeOfDay? (cs : List Char) : Option (Nat × Nat × List Char) := do
  let (hour, cs) ← field? 0 23 cs
  let cs ← char? ':' cs
  let (minute, cs) ← field? 0 59 cs
  let cs ← char? ':' cs
  let (second, cs) ← field? 0 60 cs
  let (nano, cs) ← fraction? cs
  let ofDay := hour * 3600 + minute * 60
  if second = 60 then some (ofDay + 59, nano + Instant.nanos, cs)
  else some (ofDay + second, nano, cs)

def twoDigits? : List Char → Option (Nat × List Char)
  | a :: b :: rest => if a.isDigit ∧ b.isDigit then some (value [a, b], rest) else none
  | _ => none

/-- Seconds east of UTC. -/
def zone? (cs : List Char) : Option (Int × List Char) := do
  let offset (sign : Int) (cs : List Char) : Option (Int × List Char) := do
    let (hours, cs) ← twoDigits? cs
    let (minutes, cs) ← twoDigits? (cs.dropWhile fun c => c = ':' || isBlank c)
    if minutes < 60 ∧ hours < 24 then some (sign * (hours * 3600 + minutes * 60 : Nat), cs)
    else none
  match cs with
  | 'Z' :: rest | 'z' :: rest => some (0, rest)
  | '+' :: rest => offset 1 rest
  | '-' :: rest | '\u2212' :: rest => offset (-1) rest
  | a :: b :: c :: rest =>
    if a.toUpper = 'U' ∧ b.toUpper = 'T' ∧ c.toUpper = 'C' then some (0, rest) else none
  | _ => none

/-- The first and the last day that a written date may name. -/
def daysInRange (days : Int) : Bool :=
  Instant.firstSecond ≤ days * 86400 && days * 86400 ≤ Instant.lastSecond

/-- The instant a timestamp names. -/
def parse? (text : String) : Option Instant := do
  let (date, cs) ← date? text.toList
  let cs ← match cs with
    | 'T' :: cs | 't' :: cs | ' ' :: cs => some cs
    | _ => none
  let (ofDay, nano, cs) ← timeOfDay? cs
  let (offset, cs) ← zone? (skipBlanks cs)
  let days := date.toDays
  if skipBlanks cs = [] ∧ daysInRange days then
    Instant.make? (days * 86400 + ofDay - offset) nano
  else
    none

def padded (width n : Nat) : String :=
  let ds := Nat.toDigits 10 n
  String.ofList (List.replicate (width - ds.length) '0' ++ ds)

/-- Four digits, with a sign outside of 0 to 9999. -/
def yearText (year : Int) : String :=
  if 0 ≤ year ∧ year ≤ 9999 then padded 4 year.toNat
  else (if year < 0 then "-" else "+") ++ padded 4 year.natAbs

def fractionText (nano : Nat) : String :=
  if nano = 0 then ""
  else if nano % 1000000 = 0 then "." ++ padded 3 (nano / 1000000)
  else if nano % 1000 = 0 then "." ++ padded 6 (nano / 1000)
  else "." ++ padded 9 nano

end Timestamp

namespace Instant

def text (t : Instant) : String :=
  let date := CivilDate.ofDays (t.second / 86400)
  let ofDay := (t.second % 86400).toNat
  let second := ofDay % 60 + (if t.isLeap then 1 else 0)
  let nano := if t.isLeap then t.nano - nanos else t.nano
  Timestamp.yearText date.year ++ "-" ++ Timestamp.padded 2 date.month ++ "-" ++
    Timestamp.padded 2 date.day ++ "T" ++ Timestamp.padded 2 (ofDay / 3600) ++ ":" ++
    Timestamp.padded 2 (ofDay / 60 % 60) ++ ":" ++ Timestamp.padded 2 second ++
    Timestamp.fractionText nano ++ "Z"

def encode (t : Instant) : Json := .string t.text

def decode? (j : Json) : Option Instant := do Timestamp.parse? (← j.asString?)

end Instant

end Engagement
