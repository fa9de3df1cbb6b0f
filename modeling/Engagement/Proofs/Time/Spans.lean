import Engagement.Time.Instant

/-! # Spans from an instant on

Going on by whole seconds leaves a leap second for the second after the one it extends. Of two
instants in order their ends are in order too, unless the later one lies in the leap second that
extends the second of the earlier one.

A longer span leads at least as far, forwards and backwards, and beyond all instants if a shorter
one does. Outside leap seconds, going back undoes going on.
-/

namespace Engagement

namespace Instant

variable {t u v : Instant} {seconds : Nat}

theorem le_iff : t ≤ u ↔ t.second < u.second ∨ (t.second = u.second ∧ t.nano ≤ u.nano) := by
  have ht := t.nano_lt
  have hu := u.nano_lt
  change t.position ≤ u.position ↔ _
  unfold position nanos at *
  omega

instance : Std.IsLinearPreorder Instant where
  le_refl t := Int.le_refl t.position
  le_trans _ u _ := fun h h' => Int.le_trans (b := u.position) h h'
  le_total t u := Int.le_total t.position u.position

theorem position_injective (h : t.position = u.position) : t = u := by
  have here := le_iff.mp (show t ≤ u from Int.le_of_eq h)
  have back := le_iff.mp (show u ≤ t from Int.le_of_eq h.symm)
  obtain ⟨second, nano, _⟩ := t
  obtain ⟨second', nano', _⟩ := u
  obtain ⟨rfl, rfl⟩ : second = second' ∧ nano = nano' := by
    dsimp only at here back
    omega
  rfl

instance : Std.IsLinearOrder Instant where
  le_antisymm _ _ h h' := position_injective (Int.le_antisymm h h')

instance : Std.LawfulOrderLT Instant where
  lt_iff t u := Int.lt_iff_le_and_not_ge (a := t.position) (b := u.position)

theorem min_eq (t u : Instant) : min t u = if t ≤ u then t else u := rfl

instance : Std.LawfulOrderMin Instant where
  min_eq_or t u := by
    rw [min_eq]
    split <;> simp
  le_min_iff t u v := by
    rw [min_eq]
    split <;> simp only [le_iff] at * <;> omega

theorem max_eq (t u : Instant) : max t u = if t ≤ u then u else t := rfl

instance : Std.LawfulOrderMax Instant where
  max_eq_or t u := by
    rw [max_eq]
    split <;> simp
  max_le_iff t u v := by
    rw [max_eq]
    split <;> simp only [le_iff] at * <;> omega

/-- `u` lies in the leap second that extends the second of `t`. -/
def Overruns (u t : Instant) : Prop := u.second = t.second ∧ u.isLeap ∧ ¬ t.isLeap

instance : Decidable (u.Overruns t) := inferInstanceAs (Decidable (_ ∧ _ ∧ _))

theorem make?_self (t : Instant) : make? t.second t.nano = some t := by
  unfold make?
  rw [dif_pos ⟨t.firstSecond_le, t.le_lastSecond, t.nano_lt⟩]

theorem make?_eq_some {second : Int} {nano : Nat} (h : make? second nano = some t) :
    t.second = second ∧ t.nano = nano := by
  unfold make? at h
  split at h
  · obtain rfl := Option.some.inj h
    exact ⟨rfl, rfl⟩
  · cases h

theorem exists_make? {second : Int} {nano : Nat} (first : firstSecond ≤ second)
    (last : second ≤ lastSecond) (fraction : nano < 2 * nanos) :
    ∃ t, make? second nano = some t :=
  ⟨_, dif_pos ⟨first, last, fraction⟩⟩

end Instant

namespace Span

open Instant

variable {t u v : Instant} {seconds longer : Nat}

theorem after?_zero (t : Instant) : after? t 0 = some t := by
  have hs : t.shift? 0 0 = make? t.second t.nano := by
    unfold shift?
    by_cases h : t.isLeap = true
    · simp [h]
    · have hn : t.nano < nanos := by simpa [isLeap] using h
      have hd : (t.nano : Int) / nanos = 0 := Int.ediv_eq_zero_of_lt (by omega) (by omega)
      have hm : (t.nano : Int) % nanos = t.nano := Int.emod_eq_of_lt (by omega) (by omega)
      simp [h, hd, hm]
  exact hs.trans t.make?_self

theorem fraction_of_lt {n : Nat} (h : n < nanos) :
    (n : Int) / nanos = 0 ∧ ((n : Int) % nanos).toNat = n := by
  unfold nanos at *
  omega

/-- The fraction of a leap second that is left is that within the next second. -/
theorem sub_nanos_of_leap (leap : t.isLeap = true) :
    t.nano - nanos < nanos ∧ t.nano - nanos = t.nano % nanos := by
  have hlt := t.nano_lt
  have hle : nanos ≤ t.nano := by simpa [isLeap] using leap
  unfold nanos at *
  omega

theorem after?_of_pos (t : Instant) (h : 0 < seconds) : after? t seconds =
    if seconds ≤ limit then make? (t.second + seconds) (t.nano % nanos) else none := by
  unfold after? ofSeconds?
  split
  · change t.shift? seconds 0 = _
    unfold shift?
    by_cases hl : t.isLeap = true
    · obtain ⟨short, left⟩ := sub_nanos_of_leap hl
      obtain ⟨hd, hr⟩ := fraction_of_lt short
      have hp : (0 : Int) < seconds := by omega
      dsimp only
      rw [if_neg fun h => h.2.1 (.inl hp), if_neg fun h => h.2 (.inl hp), if_pos hl, Int.add_zero,
        hd, hr, left, Int.add_zero]
    · have hlt : t.nano < nanos := by simpa [isLeap] using hl
      obtain ⟨hd, hr⟩ := fraction_of_lt hlt
      simp [hl, hd, hr, Nat.mod_eq_of_lt hlt]
  · rfl

/-- What is over after the later of two instants is over after the earlier one. -/
theorem after?_mono (h : t ≤ u) (plain : ¬ u.Overruns t) (hv : after? u seconds = some v) :
    ∃ w, after? t seconds = some w ∧ w ≤ v := by
  rcases Nat.eq_zero_or_pos seconds with rfl | pos
  · rw [after?_zero] at hv
    obtain rfl := Option.some.inj hv
    exact ⟨t, after?_zero t, h⟩
  · rw [after?_of_pos _ pos] at hv ⊢
    split at hv
    · obtain ⟨hs, hn⟩ := make?_eq_some hv
      have hfirst := t.firstSecond_le
      have hlast := v.le_lastSecond
      rw [le_iff] at h
      have in_range : firstSecond ≤ t.second + seconds ∧ t.second + seconds ≤ lastSecond ∧
          t.nano % nanos < 2 * nanos := by
        have hm := Nat.mod_lt t.nano (show 0 < nanos by decide)
        omega
      have hw : make? (t.second + seconds) (t.nano % nanos) =
          some ⟨t.second + seconds, t.nano % nanos, in_range.1, in_range.2.1, in_range.2.2⟩ :=
        dif_pos in_range
      rename_i hle
      refine ⟨_, by rw [if_pos hle, hw], ?_⟩
      rw [le_iff, hs, hn]
      simp only [Overruns, isLeap, decide_eq_true_eq] at plain
      have ht := t.nano_lt
      have hu := u.nano_lt
      unfold nanos at *
      dsimp only
      omega
    · cases hv

theorem before?_zero (t : Instant) : before? t 0 = some t := after?_zero t

/-- Going back from a leap second counts from the second after the one it extends. -/
theorem before?_of_pos (t : Instant) (h : 0 < seconds) : before? t seconds =
    if seconds ≤ limit then
      make? ((if t.isLeap then t.second + 1 else t.second) - seconds) (t.nano % nanos)
    else none := by
  unfold before? ofSeconds?
  split
  · have forwards :
        ¬ (0 < -(seconds : Int) ∨ (0 < (0 : Int) ∧ 2 * nanos ≤ t.nano + (0 : Int))) := by
      omega
    have backwards : -(seconds : Int) < 0 := by omega
    change t.shift? (-seconds) 0 = _
    unfold shift?
    dsimp only
    rw [if_neg fun h => h.2.2 backwards, Int.add_zero]
    by_cases hl : t.isLeap = true
    · obtain ⟨short, left⟩ := sub_nanos_of_leap hl
      obtain ⟨hd, hr⟩ := fraction_of_lt short
      rw [if_pos ⟨hl, forwards⟩, if_pos hl, if_pos hl, Int.add_zero, hd, hr, left, Int.add_zero,
        Int.sub_eq_add_neg]
    · have hlt : t.nano < nanos := by simpa [isLeap] using hl
      obtain ⟨hd, hr⟩ := fraction_of_lt hlt
      rw [if_neg fun h => hl h.1, if_neg hl, if_neg hl, Int.add_zero, hd, hr,
        Nat.mod_eq_of_lt hlt, Int.add_zero, Int.sub_eq_add_neg]
  · rfl

/-- Where a longer span ends, a shorter one has ended before. -/
theorem after?_of_longer (le : seconds ≤ longer) (hv : after? t longer = some v) :
    ∃ u, after? t seconds = some u ∧ u ≤ v := by
  rcases Nat.eq_zero_or_pos longer with rfl | pos
  · obtain rfl : seconds = 0 := by omega
    exact ⟨v, hv, Std.le_refl v⟩
  rw [after?_of_pos _ pos] at hv
  split at hv
  case isFalse => cases hv
  rename_i within
  obtain ⟨hs, hn⟩ := make?_eq_some hv
  have first := t.firstSecond_le
  have last := v.le_lastSecond
  have fraction : t.nano % nanos < nanos := Nat.mod_lt _ (by decide)
  have ht := t.nano_lt
  rcases Nat.eq_zero_or_pos seconds with rfl | some_time
  · refine ⟨t, after?_zero t, ?_⟩
    rw [le_iff]
    omega
  · obtain ⟨u, hu⟩ : ∃ u, make? (t.second + seconds) (t.nano % nanos) = some u :=
      exists_make? (by omega) (by omega) (by omega)
    obtain ⟨hs', hn'⟩ := make?_eq_some hu
    refine ⟨u, ?_, ?_⟩
    · rw [after?_of_pos _ some_time, if_pos (Nat.le_trans le within), hu]
    · rw [le_iff]
      omega

/-- Where a longer span begins, a shorter one begins after. -/
theorem before?_of_longer (le : seconds ≤ longer) (hv : before? t longer = some v) :
    ∃ u, before? t seconds = some u ∧ v ≤ u := by
  rcases Nat.eq_zero_or_pos longer with rfl | pos
  · obtain rfl : seconds = 0 := by omega
    exact ⟨v, hv, Std.le_refl v⟩
  rw [before?_of_pos _ pos] at hv
  split at hv
  case isFalse => cases hv
  rename_i within
  obtain ⟨hs, hn⟩ := make?_eq_some hv
  have first := v.firstSecond_le
  have last := t.le_lastSecond
  have fraction : t.nano % nanos < nanos := Nat.mod_lt _ (by decide)
  have ht := t.nano_lt
  have leap : t.isLeap = true ↔ nanos ≤ t.nano := decide_eq_true_iff
  have hmod : ¬ nanos ≤ t.nano → t.nano % nanos = t.nano := fun h => Nat.mod_eq_of_lt (by omega)
  rcases Nat.eq_zero_or_pos seconds with rfl | some_time
  · refine ⟨t, before?_zero t, ?_⟩
    rw [le_iff]
    split at hs <;> omega
  · obtain ⟨u, hu⟩ : ∃ u, make? ((if t.isLeap then t.second + 1 else t.second) - seconds)
        (t.nano % nanos) = some u :=
      exists_make? (by omega) (by split <;> omega) (by omega)
    obtain ⟨hs', hn'⟩ := make?_eq_some hu
    refine ⟨u, ?_, ?_⟩
    · rw [before?_of_pos _ some_time, if_pos (Nat.le_trans le within), hu]
    · rw [le_iff]
      omega

theorem before?_after? (plain : t.isLeap = false) (hu : after? t seconds = some u) :
    before? u seconds = some t := by
  rcases Nat.eq_zero_or_pos seconds with rfl | pos
  · rw [after?_zero] at hu
    obtain rfl := Option.some.inj hu
    exact before?_zero t
  · rw [after?_of_pos _ pos] at hu
    split at hu
    · rename_i within
      obtain ⟨hs, hn⟩ := make?_eq_some hu
      have short : t.nano < nanos := by simpa [isLeap] using plain
      rw [Nat.mod_eq_of_lt short] at hn
      have plain' : u.isLeap ≠ true := by simpa [isLeap, hn] using short
      rw [before?_of_pos _ pos, if_pos within, if_neg plain', hs, hn, Nat.mod_eq_of_lt short,
        Int.add_sub_cancel]
      exact t.make?_self
    · cases hu

end Span

end Engagement
