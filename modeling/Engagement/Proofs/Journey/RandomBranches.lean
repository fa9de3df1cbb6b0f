import Engagement.Step

/-! # Fair random branches

A roll lies in `[0, 100)`. A random branch takes the first arm whose running total of weights is
greater than the roll, so an arm without weight is never taken, and some arm is as soon as the total
reaches one hundred.
-/

namespace Engagement

namespace Binary64

/-- A number of at most 53 significant bits is rounded to itself. -/
theorem roundRatio_of_dvd {m : Nat} (h : twoTo (excess m) ∣ m) : roundRatio m 1 = m := by
  have hr : m % twoTo (excess m) = 0 := Nat.mod_eq_zero_of_dvd h
  have hp := twoTo_pos (excess m)
  unfold roundRatio nearest
  simp only [Nat.div_one, Nat.one_mul, hr]
  rw [if_pos (.inl (by omega)), Nat.div_mul_cancel h]

theorem ofRatio?_of_dvd {m : Nat} (negative : Bool) (h : twoTo (excess m) ∣ m)
    (below : m < limit) : ofRatio? negative m 1 = some ⟨negative, m, h, below⟩ := by
  unfold ofRatio?
  simp only [roundRatio_of_dvd h]
  rw [dif_pos below]

theorem natAbs_units (x : Binary64) : x.units.natAbs = x.magnitude := by
  unfold units
  split <;> simp

/-- The sign of a number counts for as much as that of its units. -/
theorem units_of_sign (x : Binary64) :
    units ⟨decide (x.units < 0), x.magnitude, x.dvd, x.lt_limit⟩ = x.units := by
  unfold units
  dsimp only
  cases x.negative <;> simp only [Bool.false_eq_true, if_true, if_false, decide_eq_true_eq] <;>
    split <;> omega

theorem one_eq {a b : Nat} (h : a + b = 1074) : one = twoTo a * twoTo b := by
  unfold one
  rw [← twoTo_add, h]

/-- Rounding up adds at most one step. -/
theorem roundRatio_le (m : Nat) : roundRatio m 1 ≤ m + twoTo (excess m) := by
  have hn := nearest_le m (twoTo (excess m))
  have hd := Nat.div_mul_le_self m (twoTo (excess m))
  unfold roundRatio
  simp only [Nat.div_one, Nat.one_mul]
  calc nearest m (twoTo (excess m)) * twoTo (excess m)
      ≤ (m / twoTo (excess m) + 1) * twoTo (excess m) := Nat.mul_le_mul_right _ hn
    _ ≤ m + twoTo (excess m) := by rw [Nat.add_mul, Nat.one_mul]; omega

end Binary64

namespace Roll

/-- A roll is less than one hundred. -/
theorem units_lt (seed : UInt64) : units seed < 100 * Binary64.one := by
  have hv : ((bits seed) >>> 12).toNat < twoTo 52 := by
    have hb := (bits seed).toNat_lt
    rw [UInt64.toNat_shiftRight, Nat.shiftRight_eq_div_pow]
    exact Nat.div_lt_of_lt_mul (by simpa [twoTo] using hb)
  have one_eq := Binary64.one_eq (show 52 + (1074 - 52) = 1074 from rfl)
  have unit_pos := twoTo_pos (1074 - 52)
  have round := Binary64.roundRatio_le (((bits seed) >>> 12).toNat * 100 * twoTo (1074 - 52))
  -- The numerator has at most 59 bits above the unit, so a step is at most six bits above it.
  have step : twoTo (Binary64.excess (((bits seed) >>> 12).toNat * 100 * twoTo (1074 - 52))) ≤
      twoTo 6 * twoTo (1074 - 52) := by
    rw [← twoTo_add]
    refine twoTo_le ?_
    have length : ((bits seed) >>> 12).toNat * 100 * twoTo (1074 - 52) <
        twoTo (59 + (1074 - 52)) := by
      rw [twoTo_add]
      refine Nat.mul_lt_mul_of_pos_right ?_ unit_pos
      have h52 : twoTo 52 = 4503599627370496 := rfl
      have h59 : twoTo 59 = 576460752303423488 := rfl
      omega
    have hl := Binary64.bitLength_le length
    unfold Binary64.excess
    omega
  unfold units
  rw [one_eq]
  generalize twoTo (1074 - 52) = unit at *
  generalize ((bits seed) >>> 12).toNat = v at *
  have h6 : twoTo 6 = 64 := rfl
  calc Binary64.roundRatio (v * 100 * unit) 1
      ≤ v * 100 * unit + twoTo 6 * unit := Nat.le_trans round (Nat.add_le_add_left step _)
    _ = (v * 100 + twoTo 6) * unit := (Nat.add_mul ..).symm
    _ < 100 * twoTo 52 * unit := Nat.mul_lt_mul_of_pos_right (by omega) unit_pos
    _ = 100 * (twoTo 52 * unit) := Nat.mul_assoc ..

end Roll

namespace Total

variable {total : Total} {weight : Binary64} {roll : Nat}

theorem not_exceeds_zero (roll : Nat) : zero.exceeds roll = false := by
  have none : ¬ (roll : Int) < 0 := by omega
  exact decide_eq_false none

/-- Without weight nothing is added. -/
theorem exceeds_add_of_zero (zero : weight.units = 0) (n : Int) :
    (total.add weight).exceeds n = total.exceeds n := by
  cases total with
  | infinite negative => rfl
  | finite x =>
    unfold add
    simp only [zero, Int.add_zero, x.natAbs_units, Binary64.ofRatio?_of_dvd _ x.dvd x.lt_limit,
      exceeds, x.units_of_sign]

/-- The total is at least one hundred. -/
def ReachesHundred : Total → Prop
  | .finite x => (100 * Binary64.one : Nat) ≤ x.units
  | .infinite negative => negative = false

theorem ReachesHundred.exceeds (reaches : total.ReachesHundred) (h : roll < 100 * Binary64.one) :
    total.exceeds roll = true := by
  cases total with
  | infinite negative => simpa [Total.exceeds, ReachesHundred] using reaches
  | finite x =>
    have below : (roll : Int) < (100 * Binary64.one : Nat) := Int.ofNat_lt.mpr h
    exact decide_eq_true (Int.lt_of_lt_of_le below reaches)

end Total

variable {roll : Nat} {arms : List Arm} {start : Total} {taken : Option Arm}

/-- The total of the weights of some arms, added up from `start` on in their order. -/
def runningTotal (start : Total) (arms : List Arm) : Total :=
  (arms.map (·.weight)).foldl Total.add start

/-- The arm drawn is the first by which the running total exceeds the roll; none if no running total
does. -/
inductive Draws (roll : Nat) (start : Total) (arms : List Arm) : Option Arm → Prop
  | first {before after : List Arm} {arm : Arm} (split : arms = before ++ arm :: after)
      (exceeds : (runningTotal start (before ++ [arm])).exceeds roll = true)
      (below : ∀ part, part <+: before → (runningTotal start part).exceeds roll = false) :
    Draws roll start arms (some arm)
  | miss (below : ∀ part, part <+: arms → (runningTotal start part).exceeds roll = false) :
    Draws roll start arms none

namespace Draws

theorem below_cons {arm : Arm} (below : start.exceeds roll = false)
    (h : ∀ part, part <+: arms → (runningTotal (start.add arm.weight) part).exceeds roll = false) :
    ∀ part, part <+: arm :: arms → (runningTotal start part).exceeds roll = false := by
  intro part hp
  rcases List.prefix_cons_iff.mp hp with rfl | ⟨rest, rfl, hr⟩
  · exact below
  · exact h rest hr

theorem cons {arm : Arm} (below : start.exceeds roll = false)
    (h : Draws roll (start.add arm.weight) arms taken) : Draws roll start (arm :: arms) taken := by
  cases h with
  | @first before after later split exceeds earlier =>
    exact @first _ _ _ (arm :: before) after later (congrArg (arm :: ·) split) exceeds
      (below_cons below earlier)
  | miss earlier => exact .miss (below_cons below earlier)

/-- An arm without weight is not drawn. -/
theorem has_weight {arm : Arm} (h : Draws roll start arms (some arm)) : arm.weight.units ≠ 0 := by
  intro weightless
  cases h with
  | @first before after _ split exceeds below =>
    have before_it := below before (List.prefix_refl _)
    have same : runningTotal start (before ++ [arm]) =
        (runningTotal start before).add arm.weight := by
      simp [runningTotal]
    rw [same, Total.exceeds_add_of_zero weightless, before_it] at exceeds
    cases exceeds

theorem eq_none_iff (h : Draws roll start arms taken) : taken = none ↔
    ∀ part, part <+: arms → (runningTotal start part).exceeds roll = false := by
  cases h with
  | @first before after arm split exceeds below =>
    refine ⟨nofun, fun none => ?_⟩
    have here := none (before ++ [arm]) (split ▸ by simp)
    rw [here] at exceeds
    cases exceeds
  | miss below => exact ⟨fun _ => below, fun _ => rfl⟩

end Draws

theorem draws_chooseArm (arms : List Arm) (below : start.exceeds roll = false) :
    Draws roll start arms (chooseArm roll start arms) := by
  induction arms generalizing start with
  | nil =>
    refine .miss fun part hp => ?_
    rw [List.prefix_nil.mp hp]
    exact below
  | cons arm arms ih =>
    unfold chooseArm
    dsimp only
    split
    · rename_i exceeds
      refine @Draws.first _ _ _ [] arms arm rfl exceeds fun part hp => ?_
      rw [List.prefix_nil.mp hp]
      exact below
    · rename_i not_yet
      exact (ih (Bool.eq_false_iff.mpr not_yet)).cons below

/-- The arm that is drawn at a node with a journey's seed. -/
def drawn (seed : UInt64) (node : String) (arms : List Arm) : Option Arm :=
  chooseArm (Roll.units (branchSeed seed node)) .zero arms

theorem draws_drawn (seed : UInt64) (node : String) (arms : List Arm) :
    Draws (Roll.units (branchSeed seed node)) .zero arms (drawn seed node arms) :=
  draws_chooseArm arms (Total.not_exceeds_zero _)

/-- The journey goes on with the arm that is drawn, or ends as no arm is. -/
def branchResult : Option Arm → StepResult
  | some arm => .proceed arm.next
  | none => .complete .noMatch

/-- A random branch depends on nothing but the seed, the name of the node and its arms. -/
theorem Step.execute_randomBranch {node : Node} {arms : List Arm}
    (branches : node.action = .randomBranch arms) (host : Host) (journey : Journey)
    (ctx : StepContext) : execute host node journey ctx =
      (host, .finished (branchResult (drawn journey.randomSeed node.id arms))) := by
  unfold execute randomBranch drawn
  simp only [branches]
  cases chooseArm (Roll.units (branchSeed journey.randomSeed node.id)) .zero arms <;> rfl

/-- Some arm is drawn as soon as a running total reaches one hundred. -/
theorem isSome_drawn {seed : UInt64} {node : String} {arms part : List Arm} (first : part <+: arms)
    (reaches : (runningTotal .zero part).ReachesHundred) : (drawn seed node arms).isSome := by
  have exceeds := reaches.exceeds (Roll.units_lt (branchSeed seed node))
  rw [Option.isSome_iff_ne_none]
  intro none
  have below := (draws_drawn seed node arms).eq_none_iff.mp none part first
  rw [exceeds] at below
  cases below

end Engagement
