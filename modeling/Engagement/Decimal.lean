import Engagement.Binary64

/-! # Shortest decimals

The fewest decimal digits that read back as a given binary64 number, and the two ways in which
they are written: positional for messages, and with an exponent outside the usual range for data.
-/

namespace Engagement

/-- The number `digits · 10 ^ exponent`. -/
structure Decimal where
  digits : Nat
  exponent : Int
  deriving DecidableEq

namespace Decimal

open Binary64 (one nearest roundRatio)

/-- The quotient whose value is `10 ^ -exponent` times a magnitude. -/
def scaled (magnitude : Nat) (exponent : Int) : Nat × Nat :=
  if 0 ≤ exponent then (magnitude, one * tenTo exponent.toNat)
  else (magnitude * tenTo (-exponent).toNat, one)

/-- The magnitude a decimal rounds to. -/
def units (d : Decimal) : Nat :=
  if 0 ≤ d.exponent then roundRatio (d.digits * tenTo d.exponent.toNat * one) 1
  else roundRatio (d.digits * one) (tenTo (-d.exponent).toNat)

/-- How many places the decimal point lies after the first digit's left side. -/
def pointOf (magnitude : Nat) : Int :=
  if one ≤ magnitude then (Nat.toDigits 10 (magnitude / one)).length
  else
    let places := ((List.range 325).find? fun k => one ≤ magnitude * tenTo k).getD 324
    1 - (places : Int)

/-- The grid point of `n` digits that reads back as `magnitude`, the nearer one of two. -/
def onGrid? (magnitude n : Nat) : Option Decimal :=
  let exponent := pointOf magnitude - n
  let (num, den) := scaled magnitude exponent
  let below : Decimal := ⟨num / den, exponent⟩
  let above : Decimal := ⟨num / den + 1, exponent⟩
  match below.units == magnitude, above.units == magnitude with
  | true, true => some ⟨nearest num den, exponent⟩
  | true, false => some below
  | false, true => some above
  | false, false => none

/-- Drops trailing zeros of the digits, at most `fuel` of them. -/
def trim : Nat → Decimal → Decimal
  | 0, d => d
  | fuel + 1, d =>
    if d.digits ≠ 0 ∧ d.digits % 10 = 0 then trim fuel ⟨d.digits / 10, d.exponent + 1⟩ else d

/-- The decimal of fewest digits that rounds to `magnitude`. -/
def shortest (magnitude : Nat) : Decimal :=
  if magnitude = 0 then ⟨0, 0⟩
  else
    let grids := (List.range 17).map (· + 1)
    let found := grids.findSome? (onGrid? magnitude)
    trim 17 (found.getD ⟨0, 0⟩)

def zeros (n : Nat) : String := String.ofList (List.replicate n '0')

/-- Digits and point without an exponent; `fraction` ends a whole number. -/
def positional (fraction : String) (d : Decimal) : String :=
  let ds := Nat.toDigits 10 d.digits
  let point := ds.length + d.exponent
  if point ≤ 0 then "0." ++ zeros (-point).toNat ++ String.ofList ds
  else if (ds.length : Int) ≤ point then String.ofList ds ++ zeros d.exponent.toNat ++ fraction
  else
    String.ofList (ds.take point.toNat) ++ "." ++ String.ofList (ds.drop point.toNat)

/-- One digit before the point and an exponent. -/
def exponential (d : Decimal) : String :=
  let ds := Nat.toDigits 10 d.digits
  let rest := if ds.length ≤ 1 then "" else "." ++ String.ofList (ds.drop 1)
  String.ofList (ds.take 1) ++ rest ++ "e" ++ toString (ds.length + d.exponent - 1)

end Decimal

namespace Binary64

/-- The number as it stands in a message: positional, a whole number without a point. -/
def message (x : Binary64) : String :=
  (if x.negative then "-" else "") ++ (Decimal.shortest x.magnitude).positional ""

/-- The number as it stands in data: positional from `0.00001` up to sixteen digits, with a point
always. -/
def text (x : Binary64) : String :=
  let d := Decimal.shortest x.magnitude
  let point := (Nat.toDigits 10 d.digits).length + d.exponent
  (if x.negative then "-" else "") ++
    if -5 < point ∧ point ≤ 16 then d.positional ".0" else d.exponential

end Binary64

namespace Total

def message : Total → String
  | .finite x => x.message
  | .infinite negative => if negative then "-inf" else "inf"

end Total

end Engagement
