import Persatrix.Float64
import Mathlib.Algebra.Order.Field.Power
import Mathlib.Tactic.Positivity

/-!
# Rounding to doubles

The nearest double to a number, for numbers that are far from the largest one, as a number. What is
a double is not changed, and a number between two doubles with the same power of two stays between
them. A product with a power of two is exact.
-/
namespace Persatrix.Float64

/-- The nearest double, where it is finite. -/
def roundedAbs (q : ℚ) : ℚ := if q = 0 then 0 else roundEven (q / 2 ^ scale q) * 2 ^ scale q

def rounded (q : ℚ) : ℚ := if q < 0 then -roundedAbs (-q) else roundedAbs q

/-- Toward zero. -/
def truncate (q : ℚ) : ℤ := if q < 0 then ⌈q⌉ else ⌊q⌋

theorem scale_eq {q : ℚ} {k : ℤ} (hk : -1074 ≤ k) (hlow : (2 : ℚ) ^ (k + 52) ≤ q)
    (hhigh : q < 2 ^ (k + 53)) : scale q = k := by
  have hpos : 0 < q := lt_of_lt_of_le (zpow_pos (by norm_num) _) hlow
  have hleast : k + 52 ≤ Int.log 2 q := (Int.zpow_le_iff_le_log (by norm_num) hpos).mp hlow
  have hmost : Int.log 2 q < k + 53 := (Int.lt_zpow_iff_log_lt (by norm_num) hpos).mp hhigh
  unfold scale
  omega

/-- A number is scaled below the mantissas with one more bit. -/
theorem scale_le {q : ℚ} {m : ℕ} {e : ℤ} (hq : q = m * 2 ^ e) (hm : m < 2 ^ 53) (hpos : 0 < m)
    (he : -1074 ≤ e) : scale q ≤ e := by
  have hqpos : 0 < q := by
    rw [hq]
    positivity
  have hmost : q < (2 : ℕ) ^ (e + 53) := by
    rw [Nat.cast_ofNat, hq, add_comm, zpow_add₀ two_ne_zero]
    refine mul_lt_mul_of_pos_right ?_ (zpow_pos (by norm_num) _)
    have hcast : (m : ℚ) < 2 ^ 53 := by exact_mod_cast hm
    simpa using hcast
  have hlog := (Int.lt_zpow_iff_log_lt (by norm_num) hqpos).mp hmost
  unfold scale
  omega

/-- A number with a mantissa of 53 bits is a double. -/
theorem roundedAbs_of_fits {m : ℕ} {e : ℤ} (hm : m < 2 ^ 53) (he : -1074 ≤ e) :
    roundedAbs (m * 2 ^ e) = m * 2 ^ e := by
  by_cases hzero : m = 0
  · simp [hzero, roundedAbs]
  · have hle := scale_le rfl hm (Nat.pos_of_ne_zero hzero) he
    generalize hscale : scale ((m : ℚ) * 2 ^ e) = s at hle
    obtain ⟨d, hd⟩ := Int.le.dest hle
    have hquotient : (m : ℚ) * 2 ^ e / 2 ^ s = ((m * 2 ^ d : ℕ) : ℚ) := by
      rw [← hd, zpow_add₀ two_ne_zero, Nat.cast_mul, Nat.cast_pow, Nat.cast_ofNat, zpow_natCast]
      field_simp
    have hne : (m : ℚ) * 2 ^ e ≠ 0 :=
      mul_ne_zero (Nat.cast_ne_zero.mpr hzero) (zpow_ne_zero _ two_ne_zero)
    rw [roundedAbs, if_neg hne, hscale, hquotient, roundEven_natCast, ← hquotient]
    exact div_mul_cancel₀ _ (zpow_ne_zero _ two_ne_zero)

theorem rounded_of_nonneg {q : ℚ} (h : 0 ≤ q) : rounded q = roundedAbs q := if_neg (not_lt.mpr h)

theorem rounded_of_fits {m : ℕ} {e : ℤ} (hm : m < 2 ^ 53) (he : -1074 ≤ e) :
    rounded (m * 2 ^ e) = m * 2 ^ e := by
  rw [rounded_of_nonneg (by positivity), roundedAbs_of_fits hm he]

theorem roundedAbs_nonneg (q : ℚ) : 0 ≤ roundedAbs q := by
  unfold roundedAbs
  split_ifs
  · exact le_rfl
  · positivity

/-- What lies between two doubles is rounded to one between them. -/
theorem roundEven_bounds {q : ℚ} {n m : ℕ} (hlow : n ≤ q) (hhigh : q ≤ m) :
    n ≤ roundEven q ∧ roundEven q ≤ m := by
  have hfloor : n ≤ ⌊q⌋₊ := Nat.le_floor hlow
  have hle : (⌊q⌋₊ : ℚ) ≤ q := Nat.floor_le ((Nat.cast_nonneg n).trans hlow)
  have hceil : ⌊q⌋₊ ≤ m := by exact_mod_cast hle.trans hhigh
  by_cases heq : ⌊q⌋₊ = m
  · have hq : q = m := le_antisymm hhigh (heq ▸ hle)
    rw [hq, roundEven_natCast]
    exact ⟨by exact_mod_cast hq ▸ hlow, le_rfl⟩
  · cases roundEven_cases q with
    | inl h => exact ⟨by omega, by omega⟩
    | inr h => exact ⟨by omega, by omega⟩

theorem roundedAbs_bounds {q : ℚ} (hpos : 0 < q) {n m : ℕ} (hlow : n * 2 ^ scale q ≤ q)
    (hhigh : q ≤ m * 2 ^ scale q) :
    n * 2 ^ scale q ≤ roundedAbs q ∧ roundedAbs q ≤ m * 2 ^ scale q := by
  have htwo : (0 : ℚ) < 2 ^ scale q := zpow_pos (by norm_num) _
  have hbounds := roundEven_bounds (q := q / 2 ^ scale q) (n := n) (m := m)
    ((le_div_iff₀ htwo).mpr hlow) ((div_le_iff₀ htwo).mpr hhigh)
  rw [roundedAbs, if_neg hpos.ne']
  exact ⟨mul_le_mul_of_nonneg_right (by exact_mod_cast hbounds.1) htwo.le,
    mul_le_mul_of_nonneg_right (by exact_mod_cast hbounds.2) htwo.le⟩

/-- Halfway between two mantissas the even one is taken. -/
theorem roundEven_half (n : ℕ) :
    roundEven (n / 2) = if n % 2 = 0 then n / 2 else 2 * ((n + 1) / 4) := by
  by_cases hparity : n % 2 = 0
  · have hquotient : (n : ℚ) / 2 = (n / 2 : ℕ) := by
      have heven : (n : ℚ) = 2 * (n / 2 : ℕ) := by exact_mod_cast (by omega : n = 2 * (n / 2))
      linarith
    rw [if_pos hparity, hquotient, roundEven_natCast]
  · have hquotient : (n : ℚ) / 2 = (n / 2 : ℕ) + 1 / 2 := by
      have hodd : (n : ℚ) = 2 * (n / 2 : ℕ) + 1 := by
        exact_mod_cast (by omega : n = 2 * (n / 2) + 1)
      linarith
    have hfloor : ⌊((n / 2 : ℕ) : ℚ) + 1 / 2⌋₊ = n / 2 := by
      rw [Nat.floor_eq_iff (by positivity)]
      constructor <;> linarith
    have hfraction : ((n / 2 : ℕ) : ℚ) + 1 / 2 - (n / 2 : ℕ) = 1 / 2 := by ring
    rw [if_neg hparity, hquotient, roundEven, hfloor, hfraction, if_neg (lt_irrefl _),
      if_neg (lt_irrefl _)]
    split_ifs with heven <;> omega

/-- At least half of the number, and at most twice the number. -/
theorem roundedAbs_near {q : ℚ} (h : 16⁻¹ ≤ q) : q / 2 ≤ roundedAbs q ∧ roundedAbs q ≤ 2 * q := by
  have hpos : 0 < q := lt_of_lt_of_le (by norm_num) h
  have htwo : (0 : ℚ) < 2 ^ scale q := zpow_pos (by norm_num) _
  have hscale : (2 : ℚ) ^ scale q ≤ q / 2 := by
    have hlog : scale q ≤ Int.log 2 q - 1 := by
      have hleast : -4 ≤ Int.log 2 q :=
        (Int.zpow_le_iff_le_log (by norm_num) hpos).mp (by norm_num at h ⊢; exact h)
      unfold scale
      omega
    calc (2 : ℚ) ^ scale q ≤ 2 ^ (Int.log 2 q - 1) := zpow_le_zpow_right₀ (by norm_num) hlog
      _ = 2 ^ Int.log 2 q / 2 := by rw [zpow_sub₀ two_ne_zero, zpow_one]
      _ ≤ q / 2 := by
        have hself : (2 : ℚ) ^ Int.log 2 q ≤ q := by
          simpa using Int.zpow_log_le_self (b := 2) (by norm_num) hpos
        linarith
  have hfloor : (⌊q / 2 ^ scale q⌋₊ : ℚ) ≤ q / 2 ^ scale q := Nat.floor_le (by positivity)
  have hnext : q / 2 ^ scale q < ⌊q / 2 ^ scale q⌋₊ + 1 := Nat.lt_floor_add_one _
  have hround : q / 2 ^ scale q - 1 ≤ roundEven (q / 2 ^ scale q) ∧
      (roundEven (q / 2 ^ scale q) : ℚ) ≤ q / 2 ^ scale q + 1 := by
    cases roundEven_cases (q / 2 ^ scale q) with
    | inl heq => rw [heq]; constructor <;> linarith
    | inr heq => rw [heq]; push_cast; constructor <;> linarith
  have hlow := mul_le_mul_of_nonneg_right hround.1 htwo.le
  have hhigh := mul_le_mul_of_nonneg_right hround.2 htwo.le
  rw [sub_mul, div_mul_cancel₀ _ htwo.ne', one_mul] at hlow
  rw [add_mul, div_mul_cancel₀ _ htwo.ne', one_mul] at hhigh
  rw [roundedAbs, if_neg hpos.ne']
  constructor <;> linarith

/-- The mantissa to which a number is rounded. -/
theorem roundEven_scaled_le {q : ℚ} (h : 0 < q) : roundEven (q / 2 ^ scale q) ≤ 2 ^ 53 := by
  have htwo : (0 : ℚ) < 2 ^ scale q := zpow_pos (by norm_num) _
  have hlt : q < (2 : ℕ) ^ (scale q + 53) := by
    apply (Int.lt_zpow_iff_log_lt (by norm_num) h).mpr
    unfold scale
    omega
  rw [Nat.cast_ofNat, add_comm, zpow_add₀ two_ne_zero] at hlt
  have hle : q / 2 ^ scale q ≤ ((2 ^ 53 : ℕ) : ℚ) := by
    rw [div_le_iff₀ htwo]
    exact_mod_cast hlt.le
  exact (roundEven_bounds (n := 0) (by rw [Nat.cast_zero]; positivity) hle).2

/-- A double below a number with 53 bits is below it by the last of them at least. -/
theorem roundedAbs_lt {q : ℚ} (hq : 0 ≤ q) {n : ℕ} {k : ℤ} (hn : 2 ^ 52 < n)
    (h : roundedAbs q < n * 2 ^ k) : roundedAbs q ≤ (n - 1 : ℕ) * 2 ^ k := by
  have htwo : (0 : ℚ) < 2 ^ k := zpow_pos (by norm_num) _
  by_cases hzero : q = 0
  · rw [roundedAbs, if_pos hzero]
    positivity
  · have hmantissa := roundEven_scaled_le (lt_of_le_of_ne hq (Ne.symm hzero))
    rw [roundedAbs, if_neg hzero] at h ⊢
    generalize roundEven (q / 2 ^ scale q) = m at h hmantissa ⊢
    rcases lt_or_ge (scale q) k with hlt | hge
    · have hscale : (2 : ℚ) ^ scale q ≤ 2 ^ (k - 1) :=
        zpow_le_zpow_right₀ (by norm_num) (by omega)
      have hbound : (2 ^ 52 : ℚ) ≤ (n - 1 : ℕ) := by
        exact_mod_cast (by omega : 2 ^ 52 ≤ n - 1)
      calc (m : ℚ) * 2 ^ scale q ≤ 2 ^ 53 * 2 ^ (k - 1) := by
            have hcast : (m : ℚ) ≤ 2 ^ 53 := by exact_mod_cast hmantissa
            gcongr
        _ = 2 ^ 52 * 2 ^ k := by rw [zpow_sub₀ two_ne_zero, zpow_one]; ring
        _ ≤ (n - 1 : ℕ) * 2 ^ k := mul_le_mul_of_nonneg_right hbound htwo.le
    · obtain ⟨d, hd⟩ := Int.le.dest hge
      have hmultiple : (m : ℚ) * 2 ^ scale q = ((m * 2 ^ d : ℕ) : ℚ) * 2 ^ k := by
        rw [← hd, zpow_add₀ two_ne_zero, zpow_natCast, Nat.cast_mul, Nat.cast_pow, Nat.cast_ofNat]
        ring
      rw [hmultiple] at h ⊢
      have hnat : m * 2 ^ d < n := by exact_mod_cast lt_of_mul_lt_mul_right h htwo.le
      refine mul_le_mul_of_nonneg_right ?_ htwo.le
      exact_mod_cast Nat.le_pred_of_lt hnat

end Persatrix.Float64
