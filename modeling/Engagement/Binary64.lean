import Engagement.Power

/-! # Binary64 numbers

A finite binary64 number is a sign and a whole number of units of `2⁻¹⁰⁷⁴` that has at most 53
significant bits. Sums, products and quotients are exact on units and rounded once, to the
nearest representable number, a tie going to the even significand.
-/

namespace Engagement

namespace Binary64

def bitLength (n : Nat) : Nat := if n = 0 then 0 else n.log2 + 1

/-- Low bits that a number of at most 53 significant bits must leave zero. -/
def excess (n : Nat) : Nat := bitLength n - 53

/-- The natural number nearest to `num / den`, a tie going to the even one. -/
def nearest (num den : Nat) : Nat :=
  let q := num / den
  let r := num % den
  if 2 * r < den ∨ (2 * r = den ∧ q % 2 = 0) then q else q + 1

/-- The number of at most 53 significant bits nearest to `num / den`. -/
def roundRatio (num den : Nat) : Nat :=
  let step := twoTo (excess (num / den))
  nearest num (den * step) * step

/-- Units in one. -/
def one : Nat := twoTo 1074

/-- The first number of units that is too large to be finite. -/
def limit : Nat := twoTo 2098

theorem limit_pos : 0 < limit := by decide +kernel

theorem lt_twoTo_bitLength (n : Nat) : n < twoTo (bitLength n) := by
  unfold bitLength
  split
  · subst_vars; exact twoTo_pos 0
  · exact Nat.lt_log2_self

theorem bitLength_le {n k : Nat} (h : n < twoTo k) : bitLength n ≤ k := by
  unfold bitLength
  split
  · exact Nat.zero_le k
  · exact Nat.succ_le_of_lt ((Nat.log2_lt (by assumption)).mpr h)

theorem bitLength_twoTo (k : Nat) : bitLength (twoTo k) = k + 1 := by
  have hk : (twoTo k).log2 = k := Nat.log2_two_pow
  rw [bitLength, if_neg (Nat.ne_of_gt (twoTo_pos k)), hk]

theorem nearest_le (num den : Nat) : nearest num den ≤ num / den + 1 := by
  unfold nearest
  dsimp only
  split
  · exact Nat.le_succ _
  · exact Nat.le_refl _

theorem nearest_step_le (num den : Nat) :
    nearest num (den * twoTo (excess (num / den))) ≤ twoTo 53 := by
  refine Nat.le_trans (nearest_le _ _) ?_
  rw [← Nat.div_div_eq_div_mul]
  apply Nat.succ_le_of_lt
  rw [Nat.div_lt_iff_lt_mul (twoTo_pos _), ← twoTo_add]
  refine Nat.lt_of_lt_of_le (lt_twoTo_bitLength _) (twoTo_le ?_)
  unfold excess
  omega

theorem twoTo_excess_dvd_roundRatio (num den : Nat) :
    twoTo (excess (roundRatio num den)) ∣ roundRatio num den := by
  unfold roundRatio
  dsimp only
  have hk := nearest_step_le num den
  generalize nearest num (den * twoTo (excess (num / den))) = k at hk
  generalize excess (num / den) = s
  rcases Nat.lt_or_eq_of_le hk with h | h
  · have hb : bitLength (k * twoTo s) ≤ 53 + s := by
      apply bitLength_le
      rw [twoTo_add]
      exact Nat.mul_lt_mul_of_pos_right h (twoTo_pos s)
    have hs : excess (k * twoTo s) ≤ s := by unfold excess; omega
    exact Nat.dvd_trans (twoTo_dvd hs) (Nat.dvd_mul_left _ _)
  · subst h
    rw [← twoTo_add]
    apply twoTo_dvd
    unfold excess
    rw [bitLength_twoTo]
    omega

end Binary64

/-- A finite binary64 number: `magnitude` units of `2⁻¹⁰⁷⁴` with a sign. Zero has two signs. -/
structure Binary64 where
  negative : Bool
  magnitude : Nat
  dvd : twoTo (Binary64.excess magnitude) ∣ magnitude
  lt_limit : magnitude < Binary64.limit
  deriving DecidableEq

namespace Binary64

variable (x y : Binary64)

/-- The rounded value of `num / den` units, unless it is too large to be finite. -/
def ofRatio? (negative : Bool) (num den : Nat) : Option Binary64 :=
  if h : roundRatio num den < limit then
    some ⟨negative, roundRatio num den, twoTo_excess_dvd_roundRatio num den, h⟩
  else
    none

def zero (negative : Bool) : Binary64 := ⟨negative, 0, Nat.dvd_zero _, limit_pos⟩

/-- The number in units, where the two zeros agree. -/
def units : Int := if x.negative then -(x.magnitude : Int) else x.magnitude

/-- The integer `n` in units, rounded to 53 significant bits. -/
def unitsOfInt (n : Int) : Int :=
  n.sign * (roundRatio (n.natAbs * one) 1 : Nat)

def ofInt? (n : Int) : Option Binary64 := ofRatio? (n < 0) (n.natAbs * one) 1

def mul? : Option Binary64 :=
  ofRatio? (x.negative != y.negative) (x.magnitude * y.magnitude) one

def div? : Option Binary64 :=
  ofRatio? (x.negative != y.negative) (x.magnitude * one) y.magnitude

/-- The sixty-four bits of the interchange format. -/
def bits : UInt64 :=
  let s := excess x.magnitude
  UInt64.ofNat ((if x.negative then twoTo 63 else 0) + s * twoTo 52 + x.magnitude / twoTo s)

/-- The power of ten nearest to `10 ^ k`, for `k` at most 308. -/
def powTen? (k : Nat) : Option Binary64 := ofInt? (tenTo k)

/-- Scales by a power of ten in steps of at most 308 decimal places, each rounded. -/
def scaleByTen? (x : Binary64) (exponent : Int) : Option Binary64 :=
  if exponent.natAbs ≤ 308 then do
    let p ← powTen? exponent.natAbs
    if 0 ≤ exponent then x.mul? p else x.div? p
  else if x.magnitude = 0 then
    some x
  else if 0 ≤ exponent then
    none
  else do
    let p ← powTen? 308
    let y ← x.div? p
    scaleByTen? y (exponent + 308)
termination_by exponent.natAbs
decreasing_by omega

/-- The number written as `significand · 10 ^ exponent`: the significand is rounded first, then
scaled. -/
def ofDecimal? (negative : Bool) (significand : Nat) (exponent : Int) : Option Binary64 := do
  let x ← ofRatio? negative (significand * one) 1
  x.scaleByTen? exponent

end Binary64

/-- A running total of binary64 numbers, which may leave the finite range. -/
inductive Total where
  | finite (value : Binary64)
  | infinite (negative : Bool)
  deriving DecidableEq

namespace Total

def zero : Total := .finite (.zero false)

/-- Adds one finite number and rounds. A total that has left the finite range stays there. -/
def add : Total → Binary64 → Total
  | .infinite negative, _ => .infinite negative
  | .finite x, y =>
    let z := x.units + y.units
    match Binary64.ofRatio? (z < 0) z.natAbs 1 with
    | some value => .finite value
    | none => .infinite (z < 0)

def sum (xs : List Binary64) : Total := xs.foldl add zero

/-- Whether the total is greater than a number given in units. -/
def exceeds : Total → Int → Bool
  | .finite x, n => n < x.units
  | .infinite negative, _ => !negative

end Total

end Engagement
