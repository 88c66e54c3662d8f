/-
  GoFastdfs.Go.Time — the calendar behind `time.Unix(t, 0).Format(…)`.

  The zone in effect at an instant is a function `zone` from instants to offsets in
  seconds. A formatted day is digits only, with a sign before a year below zero
  (`day_digits`), which is what lets a day be a prefix of a database key. A day is read back
  from its date (`daysOf_civil`), so two days never share a text (`day_eq_iff`).
-/

import GoFastdfs.Go.Text
import Mathlib.Algebra.Order.Group.Int
import Mathlib.Algebra.Order.Ring.Int
import Mathlib.Order.Monotone.Basic

namespace GoFastdfs.Go

/-- Year, month and day of the `z`-th day after 1 January 1970. -/
def civil (z : Int) : Int × Nat × Nat :=
  let z := z + 719468
  let era := z / 146097
  let doe := z - era * 146097
  let yoe := (doe - doe / 1460 + doe / 36524 - doe / 146096) / 365
  let doy := doe - (365 * yoe + yoe / 4 - yoe / 100)
  let mp := (5 * doy + 2) / 153
  let d := doy - (153 * mp + 2) / 5 + 1
  let m := if mp < 10 then mp + 3 else mp - 9
  (yoe + era * 400 + (if m ≤ 2 then 1 else 0), m.toNat, d.toNat)

def pad (w n : Nat) : Str :=
  let s := Nat.toDigits 10 n
  List.replicate (w - s.length) '0' ++ s

def padYear (y : Int) : Str := if y < 0 then '-' :: pad 4 y.natAbs else pad 4 y.natAbs

variable (zone : Int → Int)

/-- `GetDayFromTimeStamp`: the layout `20060102`. -/
def day (t : Int) : Str :=
  let c := civil ((t + zone t) / 86400)
  padYear c.1 ++ pad 2 c.2.1 ++ pad 2 c.2.2

/-- The layout `20060102/15/04`. -/
def dayHourMinute (t : Int) : Str :=
  let s := (t + zone t) % 86400
  day zone t ++ '/' :: pad 2 (s / 3600).toNat ++ '/' :: pad 2 (s % 3600 / 60).toNat

theorem pad_digits {w n : Nat} {c : Char} (h : c ∈ pad w n) : c.isDigit = true := by
  rcases List.mem_append.mp h with h | h
  · rw [List.eq_of_mem_replicate h]; decide
  · exact Nat.isDigit_of_mem_toDigits (by decide) (by decide) h

theorem day_digits {t : Int} {c : Char} (h : c ∈ day zone t) : c.isDigit = true ∨ c = '-' := by
  simp only [day, List.mem_append] at h
  rcases h with (h | h) | h
  · unfold padYear at h
    split at h
    · rcases List.mem_cons.mp h with h | h
      · exact Or.inr h
      · exact Or.inl (pad_digits h)
    · exact Or.inl (pad_digits h)
  · exact Or.inl (pad_digits h)
  · exact Or.inl (pad_digits h)

theorem notMem_day {c : Char} (hd : c.isDigit = false) (hm : c ≠ '-') (t : Int) : c ∉ day zone t := by
  intro h
  rcases day_digits zone h with h | h
  · rw [hd] at h; cases h
  · exact hm h

example : day (fun _ => 0) 1700000000 = "20231114".toList := by decide +kernel
example : dayHourMinute (fun _ => 8 * 3600) 1582992000 = "20200301/00/00".toList := by decide +kernel

/-! ## Dates -/

/-- The year of its cycle of four hundred in which a day of that cycle lies. -/
def yearOfCycle (doe : Int) : Int := (doe - doe / 1460 + doe / 36524 - doe / 146096) / 365

/-- The first day of a year of the cycle. -/
def yearStart (y : Int) : Int := 365 * y + y / 4 - y / 100

theorem yearOfCycle_step (n : Int) : yearOfCycle n ≤ yearOfCycle (n + 1) := by
  have h1 : (n + 1) / 1460 = n / 1460 ∨ (n + 1) / 1460 = n / 1460 + 1 ∧ (n + 1) % 1460 = 0 := by omega
  have h2 : n / 36524 ≤ (n + 1) / 36524 := by omega
  have h3 : (n + 1) / 146096 = n / 146096 ∨ (n + 1) / 146096 = n / 146096 + 1 ∧ (n + 1) % 146096 = 0 := by omega
  have h4 : (n + 1) % 146096 = 0 → (n + 1) / 36524 = n / 36524 + 1 := by omega
  refine Int.ediv_le_ediv (by decide) ?_
  omega

theorem yearOfCycle_mono {a b : Int} (h : a ≤ b) : yearOfCycle a ≤ yearOfCycle b :=
  monotone_int_of_le_succ yearOfCycle_step h

theorem yearOfCycle_starts : ∀ k : Nat, k < 400 →
    (0 < k → yearOfCycle (yearStart k - 1) < k) ∧ (k : Int) < yearOfCycle (yearStart k + 366) := by
  decide +kernel

theorem yearOfCycle_bounds {doe : Int} (h0 : 0 ≤ doe) (h1 : doe ≤ 146096) :
    0 ≤ yearOfCycle doe ∧ yearOfCycle doe < 400 := by
  unfold yearOfCycle
  omega

theorem yearStart_bounds {doe : Int} (h0 : 0 ≤ doe) (h1 : doe ≤ 146096) :
    yearStart (yearOfCycle doe) ≤ doe ∧ doe ≤ yearStart (yearOfCycle doe) + 365 := by
  obtain ⟨hy0, hy1⟩ := yearOfCycle_bounds h0 h1
  obtain ⟨k, hk⟩ := Int.eq_ofNat_of_zero_le hy0
  have hk400 : k < 400 := by omega
  obtain ⟨hbefore, hafter⟩ := yearOfCycle_starts k hk400
  rw [hk]
  constructor
  · by_contra hlt
    have hpos : 0 < k := by
      rcases Nat.eq_zero_or_pos k with rfl | hpos
      · exact absurd h0 (by simpa [yearStart] using hlt)
      · exact hpos
    have hle : yearOfCycle doe ≤ yearOfCycle (yearStart k - 1) := yearOfCycle_mono (by omega)
    have := hbefore hpos
    omega
  · by_contra hlt
    have hle : yearOfCycle (yearStart k + 366) ≤ yearOfCycle doe := yearOfCycle_mono (by omega)
    omega

/-- The day with a date, counted from 1 January 1970. -/
def daysOf (y : Int) (m d : Nat) : Int :=
  let y := if m ≤ 2 then y - 1 else y
  let mp : Int := if m ≤ 2 then m + 9 else m - 3
  yearStart (y - y / 400 * 400) + ((153 * mp + 2) / 5 + d - 1) + y / 400 * 146097 - 719468

theorem civil_eq (z : Int) : ∃ (era yoe doy mp : Int), z + 719468 = era * 146097 + yearStart yoe + doy ∧
    0 ≤ yoe ∧ yoe < 400 ∧ 0 ≤ doy ∧ doy ≤ 365 ∧ mp = (5 * doy + 2) / 153 ∧
    civil z = (yoe + era * 400 + (if mp < 10 then 0 else 1), (if mp < 10 then mp + 3 else mp - 9).toNat,
      (doy - (153 * mp + 2) / 5 + 1).toNat) := by
  have h0 : 0 ≤ (z + 719468) - (z + 719468) / 146097 * 146097 := by omega
  have h1 : (z + 719468) - (z + 719468) / 146097 * 146097 ≤ 146096 := by omega
  obtain ⟨hy0, hy1⟩ := yearOfCycle_bounds h0 h1
  obtain ⟨hs, he⟩ := yearStart_bounds h0 h1
  generalize hdoe : (z + 719468) - (z + 719468) / 146097 * 146097 = doe at *
  refine ⟨(z + 719468) / 146097, yearOfCycle doe, doe - yearStart (yearOfCycle doe), _, by omega, hy0, hy1, by omega, by omega,
    rfl, ?_⟩
  have hmp0 : 0 ≤ (5 * (doe - yearStart (yearOfCycle doe)) + 2) / 153 := by omega
  have hmp1 : (5 * (doe - yearStart (yearOfCycle doe)) + 2) / 153 ≤ 11 := by omega
  have hyear : doe - (365 * yearOfCycle doe + yearOfCycle doe / 4 - yearOfCycle doe / 100) =
      doe - yearStart (yearOfCycle doe) := rfl
  have hcycle : (doe - doe / 1460 + doe / 36524 - doe / 146096) / 365 = yearOfCycle doe := rfl
  simp only [civil, hdoe, hcycle, hyear]
  generalize (5 * (doe - yearStart (yearOfCycle doe)) + 2) / 153 = mp at *
  refine Prod.ext ?_ rfl
  dsimp only
  split_ifs <;> omega

theorem daysOf_civil (z : Int) : daysOf (civil z).1 (civil z).2.1 (civil z).2.2 = z := by
  obtain ⟨era, yoe, doy, mp, hz, hy0, hy1, hd0, hd1, hmp, hcivil⟩ := civil_eq z
  have hmp0 : 0 ≤ mp := by omega
  have hmp1 : mp ≤ 11 := by omega
  have hday : 0 ≤ doy - (153 * mp + 2) / 5 + 1 := by omega
  have hera : (yoe + era * 400) / 400 = era := by omega
  rw [hcivil, daysOf]
  dsimp only
  by_cases hlate : mp < 10
  · have hm : ¬ (mp + 3).toNat ≤ 2 := by omega
    have hmonth : ((mp + 3).toNat : Int) - 3 = mp := by omega
    rw [if_pos hlate, if_pos hlate, if_neg hm, if_neg hm, hmonth, add_zero, hera,
      add_sub_cancel_right, Int.toNat_of_nonneg hday]
    omega
  · have hm : (mp - 9).toNat ≤ 2 := by omega
    have hmonth : ((mp - 9).toNat : Int) + 9 = mp := by omega
    rw [if_neg hlate, if_neg hlate, if_pos hm, if_pos hm, hmonth, add_sub_cancel_right, hera, add_sub_cancel_right,
      Int.toNat_of_nonneg hday]
    omega

theorem civil_injective : Function.Injective civil := by
  intro z z' h
  rw [← daysOf_civil z, h, daysOf_civil]

theorem civil_small (z : Int) : (civil z).2.1 < 100 ∧ (civil z).2.2 < 100 := by
  obtain ⟨era, yoe, doy, mp, hz, hy0, hy1, hd0, hd1, hmp, hcivil⟩ := civil_eq z
  rw [hcivil]
  dsimp only
  constructor
  · split_ifs <;> omega
  · omega

/-! ## The text of a day -/

theorem ofDigitChars_pad (w n : Nat) : Nat.ofDigitChars 10 (pad w n) 0 = n := by
  rw [pad, Nat.ofDigitChars_append, Nat.ofDigitChars_replicate_zero, Nat.mul_zero,
    Nat.ofDigitChars_toDigits (by decide) (by decide)]

theorem pad_injective (w : Nat) : Function.Injective (pad w) := by
  intro m n h
  rw [← ofDigitChars_pad w m, h, ofDigitChars_pad]

theorem length_pad_two {n : Nat} (h : n < 100) : (pad 2 n).length = 2 := by
  have hle : (Nat.toDigits 10 n).length ≤ 2 := (Nat.length_toDigits_le_iff (by decide) (by decide)).mpr h
  rw [pad, List.length_append, List.length_replicate]
  omega

theorem padYear_injective : Function.Injective padYear := by
  have hsign : ∀ m n : Nat, '-' :: pad 4 m ≠ pad 4 n := fun m n h =>
    absurd (pad_digits (h ▸ List.mem_cons_self)) (by decide)
  intro y y' h
  unfold padYear at h
  split_ifs at h with hy hy' hy'
  · have := pad_injective 4 (List.cons.inj h).2
    omega
  · exact absurd h (hsign _ _)
  · exact absurd h.symm (hsign _ _)
  · have := pad_injective 4 h
    omega


def dayNumber (t : Int) : Int := (t + zone t) / 86400

def dayText (z : Int) : Str := padYear (civil z).1 ++ pad 2 (civil z).2.1 ++ pad 2 (civil z).2.2

theorem day_eq (t : Int) : day zone t = dayText (dayNumber zone t) := rfl

theorem dayText_injective : Function.Injective dayText := by
  intro z z' h
  obtain ⟨hm, hd⟩ := civil_small z
  obtain ⟨hm', hd'⟩ := civil_small z'
  have hdays := List.append_inj' h (by rw [length_pad_two hd, length_pad_two hd'])
  have hmonths := List.append_inj' hdays.1 (by rw [length_pad_two hm, length_pad_two hm'])
  refine civil_injective (Prod.ext (padYear_injective hmonths.1) (Prod.ext ?_ ?_))
  · exact pad_injective 2 hmonths.2
  · exact pad_injective 2 hdays.2

/-- Two instants have one text exactly if they are on one day. -/
theorem day_eq_iff {t t' : Int} : day zone t = day zone t' ↔ dayNumber zone t = dayNumber zone t' := by
  rw [day_eq, day_eq]
  exact dayText_injective.eq_iff

end GoFastdfs.Go
