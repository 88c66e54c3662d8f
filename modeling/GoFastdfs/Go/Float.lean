/-
  GoFastdfs.Go.Float — whole numbers as float64.

  A JSON number read into a `float64` becomes the nearest number with 53 binary digits, of
  two equally near ones the one whose last digit is even; every such number that is whole is
  printed in full by `%f`. Only whole numbers matter here, so a float is the whole number it
  stands for.

  Proved: rounding keeps exactly the numbers with 53 digits before their trailing zeros
  (`float64_eq_iff`), among them all up to 2 to the 53 (`float64_of_le`), and rounding again
  changes nothing (`float64_float64`).
-/

import Mathlib.Data.Nat.Log
import Mathlib.Tactic.Common
import Mathlib.Tactic.Ring

namespace GoFastdfs.Go

/-- The place of the last of the 53 digits. -/
def lastPlace (n : Nat) : Nat := n.log2 - 52

/-- `n` to the nearest multiple of `2 ^ lastPlace n`, ties to the even multiple. -/
def roundEven (n : Nat) : Nat :=
  let unit := 2 ^ lastPlace n
  let q := n / unit
  let r := n % unit
  if unit < 2 * r ∨ 2 * r = unit ∧ q % 2 = 1 then (q + 1) * unit else q * unit

def float64 (n : Int) : Int := n.sign * roundEven n.natAbs

/-- The number has at most 53 binary digits before its trailing zeros. -/
def Digits53 (n : Nat) : Prop := ∃ m k, m < 2 ^ 53 ∧ n = m * 2 ^ k

theorem lt_two_pow_log2 (n : Nat) : n < 2 ^ (n.log2 + 1) := Nat.lt_log2_self

theorem div_unit_lt (n : Nat) : n / 2 ^ lastPlace n < 2 ^ 53 := by
  rw [Nat.div_lt_iff_lt_mul (Nat.two_pow_pos _), ← pow_add]
  refine (lt_two_pow_log2 n).trans_le (Nat.pow_le_pow_right (by decide) ?_)
  unfold lastPlace
  omega

theorem digits53_of_dvd {n : Nat} (h : 2 ^ lastPlace n ∣ n) : Digits53 n :=
  ⟨n / 2 ^ lastPlace n, lastPlace n, div_unit_lt n, (Nat.div_mul_cancel h).symm⟩

theorem dvd_of_digits53 {n : Nat} (h : Digits53 n) : 2 ^ lastPlace n ∣ n := by
  obtain ⟨m, k, hm, hn⟩ := h
  by_cases hk : lastPlace n ≤ k
  · have hdvd := (pow_dvd_pow 2 hk).mul_left m
    rwa [← hn] at hdvd
  · -- the number is too long for its digits to end at `k`
    have hlog : n.log2 = lastPlace n + 52 := by unfold lastPlace at hk ⊢; omega
    have hpos : n ≠ 0 := by
      intro heq
      subst heq
      simp [lastPlace] at hk
    have hlow : 2 ^ (lastPlace n + 52) ≤ n := by
      rw [← hlog]
      exact Nat.log2_self_le hpos
    have hhigh : n < 2 ^ (53 + k) := by
      rw [hn, pow_add]
      exact Nat.mul_lt_mul_of_pos_right hm (Nat.two_pow_pos k)
    have hle : 2 ^ (53 + k) ≤ 2 ^ (lastPlace n + 52) := Nat.pow_le_pow_right (by decide) (by omega)
    omega

theorem roundEven_eq_iff (n : Nat) : roundEven n = n ↔ Digits53 n := by
  have hpos : 0 < 2 ^ lastPlace n := Nat.two_pow_pos _
  have hdiv := Nat.div_add_mod n (2 ^ lastPlace n)
  have hmod := Nat.mod_lt n hpos
  constructor
  · intro h
    refine digits53_of_dvd (Nat.dvd_of_mod_eq_zero ?_)
    unfold roundEven at h
    dsimp only at h
    split_ifs at h
    · rw [Nat.add_mul, Nat.mul_comm] at h
      omega
    · rw [Nat.mul_comm] at h
      omega
  · intro h
    have hzero := Nat.mod_eq_zero_of_dvd (dvd_of_digits53 h)
    unfold roundEven
    dsimp only
    rw [hzero, if_neg (by omega), Nat.div_mul_cancel (dvd_of_digits53 h)]

/-- What rounding gives has no more digits than are kept. -/
theorem digits53_roundEven (n : Nat) : Digits53 (roundEven n) := by
  have hlt := div_unit_lt n
  unfold roundEven
  dsimp only
  split_ifs
  · by_cases htop : n / 2 ^ lastPlace n + 1 < 2 ^ 53
    · exact ⟨_, _, htop, rfl⟩
    · -- all digits carried over
      have hcarry : n / 2 ^ lastPlace n + 1 = 2 ^ 53 := by omega
      exact ⟨1, 53 + lastPlace n, by decide, by rw [hcarry, one_mul, pow_add]⟩
  · exact ⟨_, _, hlt, rfl⟩

theorem digits53_of_le {n : Nat} (h : n ≤ 2 ^ 53) : Digits53 n := by
  rcases h.lt_or_eq with h | h
  · exact ⟨n, 0, h, by simp⟩
  · exact ⟨1, 53, by decide, by rw [h, one_mul]⟩

theorem float64_eq_iff (n : Int) : float64 n = n ↔ Digits53 n.natAbs := by
  rw [← roundEven_eq_iff]
  constructor
  · intro h
    have habs := congrArg Int.natAbs h
    rw [float64, Int.natAbs_mul, Int.natAbs_natCast] at habs
    by_cases hn : n = 0
    · subst hn
      decide
    · rwa [Int.natAbs_sign_of_ne_zero hn, one_mul] at habs
  · intro h
    rw [float64, h, Int.sign_mul_natAbs]

theorem float64_of_le {n : Int} (h : n.natAbs ≤ 2 ^ 53) : float64 n = n := (float64_eq_iff n).mpr (digits53_of_le h)

theorem float64_float64 (n : Int) : float64 (float64 n) = float64 n := by
  rw [float64_eq_iff, float64, Int.natAbs_mul, Int.natAbs_natCast]
  by_cases hn : n = 0
  · subst hn
    exact digits53_of_le (by decide)
  · rw [Int.natAbs_sign_of_ne_zero hn, one_mul]
    exact digits53_roundEven _

example : float64 9007199254740993 = 9007199254740992 := by decide

end GoFastdfs.Go
