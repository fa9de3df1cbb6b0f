import Engagement.Condition.Comparison

/-! # Laws of comparison

Of a number a comparison sees its binary64 value, and of any other value all but the sign of its
zeros. Two values are equal to a condition when it sees the same of both, so its equality is an
equivalence, and no answer tells equal values apart.
-/

namespace Engagement

namespace Binary64

/-- The number, as zero without a sign. -/
def unsigned (x : Binary64) : Binary64 := if x.magnitude = 0 then .zero false else x

theorem unsigned_eq_iff {x y : Binary64} : x.unsigned = y.unsigned ↔ x.units = y.units := by
  obtain ⟨_ | _, m, _, _⟩ := x <;> obtain ⟨_ | _, n, _, _⟩ := y <;>
    simp only [unsigned, units, zero] <;> split <;> split <;> simp <;> omega

theorem le_nearest (num den : Nat) : num / den ≤ nearest num den := by
  unfold nearest
  dsimp only
  split <;> omega

/-- What is not zero is not rounded to zero. -/
theorem roundRatio_pos {m : Nat} (h : 0 < m) : 0 < roundRatio m 1 := by
  have step : twoTo (excess m) ≤ m := by
    refine Nat.le_trans (twoTo_le ?_) (Nat.log2_self_le (Nat.ne_of_gt h))
    rw [excess, bitLength, if_neg (Nat.ne_of_gt h)]
    omega
  unfold roundRatio
  simp only [Nat.div_one, Nat.one_mul]
  exact Nat.mul_pos (Nat.lt_of_lt_of_le (Nat.div_pos step (twoTo_pos _)) (le_nearest _ _))
    (twoTo_pos _)

theorem one_pos : 0 < one := by
  unfold one
  exact twoTo_pos 1074

theorem unitsOfInt_zero : unitsOfInt 0 = 0 := by rw [unitsOfInt, Int.sign_zero, Int.zero_mul]

theorem unitsOfInt_pos {n : Int} (h : 0 < n) : 0 < unitsOfInt n := by
  have magnitude : 0 < n.natAbs * one := Nat.mul_pos (by omega) one_pos
  have := roundRatio_pos magnitude
  rw [unitsOfInt, Int.sign_eq_one_of_pos h]
  omega

end Binary64

namespace Number

/-- The number, as zero without a sign. -/
def plain : Number → Number
  | .int n => .int n
  | .float x => .float x.unsigned

theorem same_iff {m n : Number} : m.same n = true ↔ m.plain = n.plain := by
  cases m <;> cases n <;> simp [same, plain, Binary64.unsigned_eq_iff]

theorem units_eq_of_same {m n : Number} (h : m.same n = true) : m.units = n.units := by
  cases m <;> cases n <;> simp_all [same, units]

end Number

namespace Json

mutual

/-- The value with every zero without a sign. -/
def plain : Json → Json
  | .number n => .number n.plain
  | .array items => .array (plainItems items)
  | .object fields => .object (plainFields fields)
  | .null => .null
  | .bool b => .bool b
  | .string s => .string s

def plainItems : List Json → List Json
  | [] => []
  | x :: xs => plain x :: plainItems xs

def plainFields : List (String × Json) → List (String × Json)
  | [] => []
  | (k, x) :: xs => (k, plain x) :: plainFields xs

end

mutual

theorem same_iff (a b : Json) : a.same b = true ↔ a.plain = b.plain := by
  cases a with
  | number m => cases b <;> simp [same, plain, Number.same_iff]
  | array xs =>
    cases b with
    | array ys => simp [same, plain, sameItems_iff xs ys]
    | _ => simp [same, plain]
  | object xs =>
    cases b with
    | object ys => simp [same, plain, sameFields_iff xs ys]
    | _ => simp [same, plain]
  | _ => cases b <;> simp [same, plain]

theorem sameItems_iff (xs ys : List Json) :
    sameItems xs ys = true ↔ plainItems xs = plainItems ys := by
  cases xs with
  | nil => cases ys <;> simp [sameItems, plainItems]
  | cons x xs =>
    cases ys with
    | nil => simp [sameItems, plainItems]
    | cons y ys => simp [sameItems, plainItems, same_iff x y, sameItems_iff xs ys]

theorem sameFields_iff (xs ys : List (String × Json)) :
    sameFields xs ys = true ↔ plainFields xs = plainFields ys := by
  cases xs with
  | nil => cases ys <;> simp [sameFields, plainFields]
  | cons x xs =>
    obtain ⟨k, x⟩ := x
    cases ys with
    | nil => simp [sameFields, plainFields]
    | cons y ys =>
      simp [sameFields, plainFields, same_iff x y.2, sameFields_iff xs ys]

end

variable {a b c : Json}

/-- What a comparison sees of a value. -/
def seen : Json → Int ⊕ Json
  | .number n => .inl n.units
  | value => .inr value.plain

/-- How two values compare, by what is seen of them. -/
def order? : Int ⊕ Json → Int ⊕ Json → Option Ordering
  | .inl m, .inl n => some (compare m n)
  | _, _ => none

theorem numericOrdering?_eq (a b : Json) : numericOrdering? a b = order? a.seen b.seen := by
  cases a <;> cases b <;> rfl

theorem looseEq_iff : a.looseEq b = true ↔ a.seen = b.seen := by
  cases a with
  | number m =>
    cases b with
    | number n => simp [looseEq, numericOrdering?_eq, order?, seen]
    | _ => simp [looseEq, numericOrdering?_eq, order?, seen, same]
  | _ => cases b <;> simp [looseEq, numericOrdering?_eq, order?, seen, same_iff, plain]

theorem seen_eq_of_same (h : a.same b = true) : a.seen = b.seen := by
  cases a with
  | number m =>
    cases b with
    | number n =>
      rw [same] at h
      exact congrArg Sum.inl (Number.units_eq_of_same h)
    | _ => cases h
  | _ =>
    cases b <;> simp [seen, same_iff, plain] at h ⊢ <;> exact h

theorem looseEq_congr (h : a.seen = b.seen) : a.looseEq c = b.looseEq c := by
  rw [Bool.eq_iff_iff, looseEq_iff, looseEq_iff, h]

theorem looseEq_comm (a b : Json) : a.looseEq b = b.looseEq a := by
  rw [Bool.eq_iff_iff, looseEq_iff, looseEq_iff, eq_comm]

theorem memberOf_congr (h : a.seen = b.seen) (list : Json) :
    a.memberOf list = b.memberOf list := by
  unfold memberOf
  have same : a.looseEq = b.looseEq := funext fun c => looseEq_congr h
  rw [same]

end Json

namespace Operator

open Json

variable {a b c : Json}

theorem numeric_eq (accept : Ordering → Bool) (a b : Json) :
    numeric accept a b = (order? a.seen b.seen).any accept := by
  rw [numeric, numericOrdering?_eq]
  cases order? a.seen b.seen <;> rfl

/-- Two numbers are less, equal or greater as their binary64 values are. -/
theorem holds_number (m n : Number) :
    lessThan.holds (.number m) (.number n) = (compare m.units n.units == .lt) ∧
    equals.holds (.number m) (.number n) = (compare m.units n.units == .eq) ∧
    greaterThan.holds (.number m) (.number n) = (compare m.units n.units == .gt) ∧
    lessThanOrEqual.holds (.number m) (.number n) = (compare m.units n.units != .gt) ∧
    greaterThanOrEqual.holds (.number m) (.number n) = (compare m.units n.units != .lt) :=
  ⟨rfl, rfl, rfl, rfl, rfl⟩

theorem order?_swap (x y : Int ⊕ Json) : (order? x y).map Ordering.swap = order? y x := by
  cases x <;> cases y <;> simp [order?, Int.compare_swap]

/-- No number is ordered before or after a value that is none. -/
theorem numeric_of_none (accept : Ordering → Bool) (h : a.asNumber? = none ∨ b.asNumber? = none) :
    numeric accept a b = false := by
  cases a <;> cases b <;> first | rfl | simp [asNumber?] at h

theorem lessThan_iff :
    lessThan.holds a b = true ↔ ∃ x y : Int, a.seen = .inl x ∧ b.seen = .inl y ∧ x < y := by
  rw [holds, numeric_eq]
  cases a.seen <;> cases b.seen <;> simp [order?, Int.compare_eq_lt]

/-- A number is greater than zero to a condition exactly when it is. -/
theorem greaterThan_zero (n : Nat) : greaterThan.holds (.nat n) (.nat 0) = decide (0 < n) := by
  rw [Bool.eq_iff_iff, decide_eq_true_iff]
  obtain ⟨-, -, greater, -⟩ := holds_number (.int n) (.int 0)
  change greaterThan.holds (.number (.int n)) (.number (.int 0)) = true ↔ _
  rw [greater, beq_iff_eq, Int.compare_eq_gt, Number.units, Number.units, Binary64.unitsOfInt_zero]
  rcases Nat.eq_zero_or_pos n with rfl | h
  · simp [Binary64.unitsOfInt_zero]
  · exact ⟨fun _ => h, fun _ => Binary64.unitsOfInt_pos (by omega)⟩

/-- The operators that take two numbers. -/
def orderings : List Operator := [.lessThan, .lessThanOrEqual, .greaterThan, .greaterThanOrEqual]

theorem exists_numeric {operator : Operator} (ho : operator ∈ orderings) :
    ∃ accept, operator.holds = numeric accept := by
  simp only [orderings, List.mem_cons, List.not_mem_nil, or_false] at ho
  rcases ho with rfl | rfl | rfl | rfl <;> exact ⟨_, rfl⟩

theorem ordering_congr (h : a.seen = b.seen) {operator : Operator} (ho : operator ∈ orderings)
    (c : Json) :
    operator.holds a c = operator.holds b c ∧ operator.holds c a = operator.holds c b := by
  obtain ⟨accept, he⟩ := exists_numeric ho
  simp only [he, numeric_eq, h, and_self]

theorem equals_equivalence : Equivalence fun a b : Json => equals.holds a b = true where
  refl _ := looseEq_iff.mpr rfl
  symm h := looseEq_iff.mpr (looseEq_iff.mp h).symm
  trans h h' := looseEq_iff.mpr ((looseEq_iff.mp h).trans (looseEq_iff.mp h'))

/-- How conditions compare values. -/
structure ComparisonLaws : Prop where
  equivalence : Equivalence fun a b : Json => equals.holds a b = true
  equals_of_same : ∀ a b : Json, a.same b = true → equals.holds a b = true
  /-- Of two numbers one is less, or they are equal, or it is greater. -/
  trichotomy : ∀ m n : Number,
    [lessThan, equals, greaterThan].countP (·.holds (.number m) (.number n)) = 1
  lessThan_trans : ∀ a b c : Json,
    lessThan.holds a b = true → lessThan.holds b c = true → lessThan.holds a c = true
  lessThanOrEqual_eq : ∀ m n : Number, lessThanOrEqual.holds (.number m) (.number n) =
    (lessThan.holds (.number m) (.number n) || equals.holds (.number m) (.number n))
  greaterThanOrEqual_eq : ∀ m n : Number, greaterThanOrEqual.holds (.number m) (.number n) =
    (greaterThan.holds (.number m) (.number n) || equals.holds (.number m) (.number n))
  unordered : ∀ a b : Json, a.asNumber? = none ∨ b.asNumber? = none →
    ∀ operator ∈ orderings, operator.holds a b = false
  notEquals_eq : ∀ a b : Json, notEquals.holds a b = !equals.holds a b
  notInList_eq : ∀ a list : Json, notInList.holds a list = !inList.holds a list
  isNotSet_eq : ∀ a b : Json, isNotSet.holds a b = !isSet.holds a b
  lessThan_comm : ∀ a b : Json, lessThan.holds a b = greaterThan.holds b a
  /-- No answer tells equal values apart. -/
  congr : ∀ a b : Json, equals.holds a b = true → ∀ operator ∈ equals :: orderings, ∀ c : Json,
    operator.holds a c = operator.holds b c ∧ operator.holds c a = operator.holds c b
  inList_congr : ∀ a b : Json, equals.holds a b = true →
    ∀ list : Json, inList.holds a list = inList.holds b list
  inList_of_contains : ∀ (items : List Json) (a : Json),
    contains.holds (.array items) a = true → inList.holds a (.array items) = true

theorem comparison_laws : ComparisonLaws where
  equivalence := equals_equivalence
  equals_of_same a b h := looseEq_iff.mpr (seen_eq_of_same h)
  trichotomy m n := by
    obtain ⟨less, equal, greater, -⟩ := holds_number m n
    simp only [List.countP_cons, List.countP_nil, less, equal, greater]
    cases compare m.units n.units <;> rfl
  lessThan_trans a b c h h' := by
    obtain ⟨x, y, hx, hy, lt⟩ := lessThan_iff.mp h
    obtain ⟨y', z, hy', hz, lt'⟩ := lessThan_iff.mp h'
    obtain rfl := Sum.inl.inj (hy.symm.trans hy')
    exact lessThan_iff.mpr ⟨x, z, hx, hz, Int.lt_trans lt lt'⟩
  lessThanOrEqual_eq m n := by
    obtain ⟨less, equal, -, most, -⟩ := holds_number m n
    rw [less, equal, most]
    cases compare m.units n.units <;> rfl
  greaterThanOrEqual_eq m n := by
    obtain ⟨-, equal, greater, -, least⟩ := holds_number m n
    rw [greater, equal, least]
    cases compare m.units n.units <;> rfl
  unordered a b h operator ho := by
    obtain ⟨accept, he⟩ := exists_numeric ho
    rw [he, numeric_of_none accept h]
  notEquals_eq a b := rfl
  notInList_eq a list := rfl
  isNotSet_eq a b := (Bool.not_not _).symm
  lessThan_comm a b := by
    rw [holds, holds, numeric_eq, numeric_eq, ← order?_swap b.seen, Option.any_map]
    congr 1
    funext ordering
    cases ordering <;> rfl
  congr a b h operator ho c := by
    have seen := looseEq_iff.mp h
    rcases List.mem_cons.mp ho with rfl | ho
    · refine ⟨looseEq_congr seen, ?_⟩
      rw [holds, holds, looseEq_comm c, looseEq_comm c, looseEq_congr seen]
    · exact ordering_congr seen ho c
  inList_congr a b h list := memberOf_congr (looseEq_iff.mp h) list
  inList_of_contains items a h := by
    obtain ⟨x, hx, same⟩ := List.any_eq_true.mp h
    exact List.any_eq_true.mpr ⟨x, hx, looseEq_iff.mpr (seen_eq_of_same same).symm⟩

/-- Integers of more than 53 bits may be equal without being the same. -/
example :
    let a : Json := .int 9007199254740992
    let b : Json := .int 9007199254740993
    equals.holds a b = true ∧ lessThan.holds a b = false ∧ a.same b = false := by
  decide +kernel

end Operator

end Engagement
