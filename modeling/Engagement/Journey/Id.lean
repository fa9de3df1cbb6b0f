import Engagement.Digest
import Engagement.Json.Record

/-! # Journey ids

An id is 128 bits. It is written as 32 hexadecimal digits in five groups, and read in that form,
without hyphens, in braces or as a URN.
-/

namespace Engagement

structure JourneyId where
  value : BitVec 128
  deriving DecidableEq

namespace JourneyId

instance : Inhabited JourneyId := ⟨⟨0⟩⟩

def digit (n : Nat) : Char := if n < 10 then Char.ofNat (48 + n) else Char.ofNat (87 + n)

def digit? (c : Char) : Option Nat :=
  if '0' ≤ c ∧ c ≤ '9' then some (c.toNat - '0'.toNat)
  else if 'a' ≤ c ∧ c ≤ 'f' then some (c.toNat - 'a'.toNat + 10)
  else if 'A' ≤ c ∧ c ≤ 'F' then some (c.toNat - 'A'.toNat + 10)
  else none

/-- All 32 digits. -/
def digits (id : JourneyId) : List Char :=
  (List.range 32).reverse.map fun i => digit (id.value.toNat >>> (4 * i) % 16)

def text (id : JourneyId) : String :=
  let ds := id.digits
  let group (start length : Nat) := String.ofList ((ds.drop start).take length)
  group 0 8 ++ "-" ++ group 8 4 ++ "-" ++ group 12 4 ++ "-" ++ group 16 4 ++ "-" ++ group 20 12

def ofDigits? (ds : List Char) : Option JourneyId := do
  if ds.length = 32 then
    let values ← ds.mapM digit?
    some ⟨BitVec.ofNat 128 (values.foldl (fun n d => n * 16 + d) 0)⟩
  else none

/-- Five groups with hyphens between them. -/
def ofGroups? (cs : List Char) : Option JourneyId :=
  if cs.length = 36 ∧ [8, 13, 18, 23].all fun i => cs[i]? = some '-' then
    ofDigits? ((cs.zipIdx.filter fun (_, i) => !([8, 13, 18, 23].contains i)).map (·.1))
  else none

def parse? (s : String) : Option JourneyId :=
  let cs := s.toList
  if cs.length = 32 then ofDigits? cs
  else if cs.length = 38 ∧ cs.head? = some '\x7b' ∧ cs.getLast? = some '\x7d' then
    ofGroups? ((cs.drop 1).take 36)
  else if cs.length = 45 ∧ cs.take 9 = "urn:uuid:".toList then ofGroups? (cs.drop 9)
  else ofGroups? cs

def encode (id : JourneyId) : Json := .string id.text

def decode? (j : Json) : Option JourneyId := do parse? (← j.asString?)

def bytes (id : JourneyId) : List UInt8 := Digest.bigEndian 16 id.value.toNat

/-- The id whose number is `n` after a base. -/
def plus (base : JourneyId) (n : Nat) : JourneyId := ⟨base.value + BitVec.ofNat 128 n⟩

/-- A base for fresh ids: random bits marked as such, with room to count. -/
def baseOf (random : List UInt8) : JourneyId :=
  let n := random.foldl (fun n b => n * 256 + b.toNat) 0
  let field (width place : Nat) : Nat := ((n >>> place) % twoTo width) <<< place
  ⟨BitVec.ofNat 128 (field 48 80 + 4 <<< 76 + field 12 64 + 2 <<< 62 + field 30 32)⟩

end JourneyId

end Engagement
