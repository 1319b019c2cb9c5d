import Mathlib.Data.Int.Log
import Mathlib.Data.Rat.Floor

/-!
# `float64`

The double nearest to a positive rational, ties to even. A double is the rational it stands for;
overflow and subnormal numbers are left out.
-/

namespace Lib

def roundEven (q : ℚ) : ℤ :=
  if q - ⌊q⌋ < 1 / 2 then ⌊q⌋
  else if 1 / 2 < q - ⌊q⌋ then ⌊q⌋ + 1
  else if ⌊q⌋ % 2 = 0 then ⌊q⌋ else ⌊q⌋ + 1

/-- The distance of two doubles next to each other, at a positive rational. -/
def ulp (q : ℚ) : ℚ := 2 ^ (Int.log 2 q - 52)

def toFloat (q : ℚ) : ℚ := if q = 0 then 0 else roundEven (q / ulp q) * ulp q

lemma roundEven_intCast (z : ℤ) : roundEven z = z := by
  rw [roundEven, Int.floor_intCast, sub_self, if_pos (by norm_num)]

lemma floor_le_roundEven (q : ℚ) : ⌊q⌋ ≤ roundEven q := by
  unfold roundEven
  split
  · exact le_refl _
  · split
    · omega
    · split <;> omega

lemma roundEven_le (q : ℚ) : roundEven q ≤ ⌊q⌋ + 1 := by
  unfold roundEven
  split
  · omega
  · split
    · exact le_refl _
    · split <;> omega

lemma ulp_pos (q : ℚ) : 0 < ulp q := zpow_pos (by norm_num) _

lemma ulp_le {q : ℚ} (h : 0 < q) : ulp q ≤ q := by
  have hlog : (2 : ℚ) ^ Int.log 2 q ≤ q := Int.zpow_log_le_self (by norm_num) h
  exact (zpow_le_zpow_right₀ (by norm_num) (by omega)).trans hlog

lemma toFloat_nonneg {q : ℚ} (h : 0 ≤ q) : 0 ≤ toFloat q := by
  unfold toFloat
  split
  · exact le_refl _
  · have hfloor : (0 : ℤ) ≤ ⌊q / ulp q⌋ := Int.floor_nonneg.mpr (div_nonneg h (ulp_pos q).le)
    have hround : (0 : ℚ) ≤ roundEven (q / ulp q) :=
      Int.cast_nonneg (hfloor.trans (floor_le_roundEven _))
    exact mul_nonneg hround (ulp_pos q).le

lemma toFloat_le {q : ℚ} (h : 0 ≤ q) : toFloat q ≤ 2 * q := by
  unfold toFloat
  split
  · rename_i hzero
    rw [hzero, mul_zero]
  · rename_i hne
    have hpos : 0 < q := lt_of_le_of_ne h (Ne.symm hne)
    have hround : (roundEven (q / ulp q) : ℚ) ≤ q / ulp q + 1 := by
      have hle : (roundEven (q / ulp q) : ℚ) ≤ ⌊q / ulp q⌋ + 1 := by
        exact_mod_cast roundEven_le (q / ulp q)
      linarith [Int.floor_le (q / ulp q)]
    calc (roundEven (q / ulp q) : ℚ) * ulp q
        ≤ (q / ulp q + 1) * ulp q := mul_le_mul_of_nonneg_right hround (ulp_pos q).le
      _ = q + ulp q := by rw [add_mul, one_mul, div_mul_cancel₀ _ (ulp_pos q).ne']
      _ ≤ 2 * q := by linarith [ulp_le hpos]

lemma toFloat_natCast {n : ℕ} (h : n < 2 ^ 53) : toFloat n = n := by
  unfold toFloat
  split
  · rename_i hzero
    exact hzero.symm
  · rename_i hne
    have hlog : Int.log 2 (n : ℚ) = (Nat.log 2 n : ℕ) := Int.log_natCast 2 n
    have hbound : Nat.log 2 n < 53 := Nat.log_lt_of_lt_pow (by exact_mod_cast hne) h
    obtain ⟨k, hk⟩ := Nat.exists_eq_add_of_le (show Nat.log 2 n ≤ 52 by omega)
    -- The quotient by the `ulp` is a whole number.
    have hquot : (n : ℚ) / ulp n = ((n * 2 ^ k : ℤ) : ℚ) := by
      rw [ulp, hlog, show ((Nat.log 2 n : ℕ) : ℤ) - 52 = -(k : ℤ) by omega, zpow_neg,
        zpow_natCast, div_inv_eq_mul]
      push_cast
      rfl
    rw [hquot, roundEven_intCast, ← hquot, div_mul_cancel₀ _ (ulp_pos _).ne']

end Lib
