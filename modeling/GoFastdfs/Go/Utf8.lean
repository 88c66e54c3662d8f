/-
  GoFastdfs.Go.Utf8 — UTF-8 in byte strings (`unicode/utf8`).

  A byte string falls into characters and stray bytes, from the front (`pieces`): what a loop
  with `utf8.DecodeRuneInString` sees. It is valid if no byte is stray. Code that writes such a
  loop's runes out again puts U+FFFD for each stray byte (`repair`).

  Proved: a character is cut the same whatever follows it (`runeSize_append`), a repaired string
  is valid (`valid_repair`), and repairing changes exactly what is not valid (`repair_eq_iff`).
-/

import GoFastdfs.Go.Text

namespace GoFastdfs.Go

/-! ## One character -/

/-- For a first byte: how many bytes follow, and the range of the first of them. -/
def runeLead (b : Nat) : Option (Nat × Nat × Nat) :=
  if b < 0x80 then some (0, 0, 0)
  else if 0xC2 ≤ b ∧ b ≤ 0xDF then some (1, 0x80, 0xBF)
  else if b = 0xE0 then some (2, 0xA0, 0xBF)
  else if b = 0xED then some (2, 0x80, 0x9F)
  else if 0xE1 ≤ b ∧ b ≤ 0xEF then some (2, 0x80, 0xBF)
  else if b = 0xF0 then some (3, 0x90, 0xBF)
  else if 0xF1 ≤ b ∧ b ≤ 0xF3 then some (3, 0x80, 0xBF)
  else if b = 0xF4 then some (3, 0x80, 0x8F)
  else none

def isTail (b : Char) : Bool := 0x80 ≤ b.toNat && b.toNat ≤ 0xBF

/-- The size that `utf8.DecodeRuneInString` gives for the character at the front; none for
    a byte that begins none. -/
def runeSize : Str → Option Nat
  | [] => none
  | b :: cs =>
    match runeLead b.toNat with
    | none => none
    | some (0, _, _) => some 1
    | some (n + 1, low, high) =>
      match cs with
      | [] => none
      | b' :: cs =>
        if low ≤ b'.toNat ∧ b'.toNat ≤ high ∧ n ≤ cs.length ∧ (cs.take n).all isTail = true then some (n + 2) else none

/-- The bytes of one character. -/
def IsRune (l : Str) : Prop := runeSize l = some l.length

theorem runeLead_zero {b low high : Nat} (h : runeLead b = some (0, low, high)) : b < 0x80 := by
  unfold runeLead at h
  split_ifs at h <;> first | assumption | cases h

theorem runeLead_succ {b n low high : Nat} (h : runeLead b = some (n + 1, low, high)) : 0x80 ≤ b ∧ 0x80 ≤ low := by
  unfold runeLead at h
  split_ifs at h
  all_goals
    simp only [Option.some.injEq, Prod.mk.injEq] at h
    omega

theorem runeSize_ascii {b : Char} (h : b.toNat < 0x80) (cs : Str) : runeSize (b :: cs) = some 1 := by
  rw [runeSize, runeLead, if_pos h]

/-- A character at the front is an ASCII byte, or bytes that are not ASCII. -/
theorem runeSize_some {s : Str} {k : Nat} (h : runeSize s = some k) :
    0 < k ∧ k ≤ s.length ∧ ((∃ b, s.take k = [b] ∧ b.toNat < 0x80) ∨ ∀ b ∈ s.take k, 0x80 ≤ b.toNat) := by
  cases s with
  | nil => cases h
  | cons b cs =>
    rw [runeSize] at h
    rcases hlead : runeLead b.toNat with _ | ⟨n, low, high⟩
    · rw [hlead] at h
      cases h
    · rw [hlead] at h
      cases n with
      | zero =>
        cases h
        exact ⟨by omega, by simp, Or.inl ⟨b, rfl, runeLead_zero hlead⟩⟩
      | succ n =>
        cases cs with
        | nil => cases h
        | cons b' cs =>
          dsimp only at h
          split_ifs at h with hall
          cases h
          obtain ⟨hlow, -, hlen, htails⟩ := hall
          obtain ⟨hb, hrange⟩ := runeLead_succ hlead
          refine ⟨by omega, by simpa using hlen, Or.inr ?_⟩
          simp only [List.take_succ_cons, List.forall_mem_cons]
          refine ⟨hb, hrange.trans hlow, fun x hx => ?_⟩
          have htail := List.all_eq_true.mp htails x hx
          simp only [isTail, Bool.and_eq_true, decide_eq_true_eq] at htail
          exact htail.1

theorem isRune_cases {l : Str} (h : IsRune l) : (∃ b, l = [b] ∧ b.toNat < 0x80) ∨ l ≠ [] ∧ ∀ b ∈ l, 0x80 ≤ b.toNat := by
  obtain ⟨hpos, -, hl⟩ := runeSize_some h
  rw [List.take_length] at hl
  exact hl.imp_right fun hall => ⟨List.ne_nil_of_length_pos hpos, hall⟩

theorem runeSize_append {l : Str} (h : IsRune l) (t : Str) : runeSize (l ++ t) = some l.length := by
  unfold IsRune at h
  cases l with
  | nil => cases h
  | cons b cs =>
    rw [List.cons_append, runeSize]
    rw [runeSize] at h
    rcases hlead : runeLead b.toNat with _ | ⟨n, low, high⟩
    · rw [hlead] at h
      cases h
    · rw [hlead] at h
      cases n with
      | zero => exact h
      | succ n =>
        cases cs with
        | nil => cases h
        | cons b' cs =>
          dsimp only [List.cons_append] at h ⊢
          split_ifs at h with hall
          have hn : n = cs.length := by
            simp only [Option.some.injEq, List.length_cons] at h
            omega
          rw [if_pos, h]
          refine ⟨hall.1, hall.2.1, by simp [hn], ?_⟩
          rw [List.take_append_of_le_length hall.2.2.1]
          exact hall.2.2.2

theorem isRune_take {s : Str} {k : Nat} (h : runeSize s = some k) : IsRune (s.take k) := by
  obtain ⟨hpos, hle, -⟩ := runeSize_some h
  have hlen : (s.take k).length = k := List.length_take_of_le hle
  unfold IsRune
  rw [hlen, ← h]
  cases s with
  | nil => simp
  | cons b cs =>
    obtain ⟨k, rfl⟩ := Nat.exists_eq_add_of_le' hpos
    rw [List.take_succ_cons, runeSize, runeSize]
    rw [runeSize] at h
    rcases hlead : runeLead b.toNat with _ | ⟨n, low, high⟩
    · rfl
    · rw [hlead] at h
      cases n with
      | zero => rfl
      | succ n =>
        cases cs with
        | nil => cases h
        | cons b' cs =>
          dsimp only at h ⊢
          split_ifs at h with hall
          obtain rfl : k = n + 1 := by simpa using h.symm
          rw [if_pos hall, List.take_succ_cons]
          dsimp only
          rw [if_pos]
          refine ⟨hall.1, hall.2.1, by simp [hall.2.2.1], ?_⟩
          rw [List.take_take, min_self]
          exact hall.2.2.2

/-- A byte that begins no character begins none where an ASCII byte follows. -/
theorem runeSize_stray {b x : Char} {s : Str} (h : runeSize (b :: s) = none) (hx : x.toNat < 0x80) (t : Str) :
    runeSize (b :: s ++ x :: t) = none := by
  cases hk : runeSize (b :: s ++ x :: t) with
  | none => rfl
  | some k =>
    have hrune := isRune_take hk
    by_cases hle : k ≤ (b :: s).length
    · rw [List.take_append_of_le_length hle] at hrune
      have hfront := runeSize_append hrune ((b :: s).drop k)
      rw [List.take_append_drop, h] at hfront
      cases hfront
    · -- the ASCII byte would be in the character
      rcases (runeSize_some hk).2.2 with ⟨y, hy, -⟩ | hall
      · have hlen := congrArg List.length hy
        have hbound := (runeSize_some hk).2.1
        rw [List.length_take_of_le hbound, List.length_singleton] at hlen
        rw [List.length_cons] at hle
        omega
      · have hmem : x ∈ (b :: s ++ x :: t).take k := by
          rw [List.take_append, List.mem_append]
          obtain ⟨n, hn⟩ := Nat.exists_eq_add_of_lt (not_le.mp hle)
          rw [show k - (b :: s).length = n + 1 by omega, List.take_succ_cons]
          exact Or.inr List.mem_cons_self
        exact absurd (hall x hmem) (by omega)

/-! ## Pieces -/

inductive Piece where
  | rune (l : Str)
  | stray (b : Char)
  deriving DecidableEq

def Piece.isRune : Piece → Bool
  | .rune _ => true
  | .stray _ => false

def cut : Nat → Str → List Piece
  | 0, _ => []
  | _ + 1, [] => []
  | n + 1, b :: cs =>
    match runeSize (b :: cs) with
    | some k => .rune ((b :: cs).take k) :: cut n ((b :: cs).drop k)
    | none => .stray b :: cut n cs

def pieces (s : Str) : List Piece := cut s.length s

def valid (s : Str) : Bool := (pieces s).all Piece.isRune

theorem cut_of_le : ∀ {n : Nat} {s : Str}, s.length ≤ n → cut n s = pieces s
  | 0, s, h => by rw [List.length_eq_zero_iff.mp (Nat.le_zero.mp h)]; rfl
  | n + 1, [], _ => rfl
  | n + 1, b :: cs, h => by
    have hcs : cs.length ≤ n := Nat.le_of_succ_le_succ h
    rw [pieces, List.length_cons, cut, cut]
    cases hk : runeSize (b :: cs) with
    | none =>
      dsimp only
      rw [cut_of_le hcs, pieces]
    | some k =>
      have hdrop : ((b :: cs).drop k).length ≤ cs.length := by
        have := (runeSize_some hk).1
        rw [List.length_drop, List.length_cons]
        omega
      dsimp only
      rw [cut_of_le (hdrop.trans hcs), cut_of_le hdrop]

@[simp] theorem pieces_nil : pieces [] = [] := rfl

theorem pieces_rune {l : Str} (h : IsRune l) (t : Str) : pieces (l ++ t) = .rune l :: pieces t := by
  have hk := runeSize_append h t
  obtain ⟨hpos, -, -⟩ := runeSize_some hk
  obtain ⟨b, cs, rfl⟩ := List.exists_cons_of_ne_nil (List.ne_nil_of_length_pos hpos)
  have hle : t.length ≤ (cs ++ t).length := by simp
  rw [List.cons_append] at hk ⊢
  rw [pieces, List.length_cons, cut, hk]
  dsimp only
  rw [← List.cons_append, List.take_left, List.drop_left, cut_of_le hle]

theorem pieces_stray {b : Char} {t : Str} (h : runeSize (b :: t) = none) : pieces (b :: t) = .stray b :: pieces t := by
  rw [pieces, List.length_cons, cut, h]
  rfl

/-- Induction over the pieces of a string. -/
theorem pieces_induction {P : Str → Prop} (nil : P []) (rune : ∀ l t, IsRune l → P t → P (l ++ t))
    (stray : ∀ b t, runeSize (b :: t) = none → P t → P (b :: t)) (s : Str) : P s := by
  induction h : s.length using Nat.strong_induction_on generalizing s with
  | _ n ih =>
    cases s with
    | nil => exact nil
    | cons b t =>
      cases hk : runeSize (b :: t) with
      | none => exact stray b t hk (ih t.length (by rw [← h]; exact Nat.lt_succ_self _) t rfl)
      | some k =>
        obtain ⟨hpos, -, -⟩ := runeSize_some hk
        have hlt : ((b :: t).drop k).length < n := by
          rw [← h, List.length_drop, List.length_cons]
          omega
        rw [← List.take_append_drop k (b :: t)]
        exact rune _ _ (isRune_take hk) (ih _ hlt _ rfl)

theorem isRune_of_mem_pieces {s l : Str} (h : .rune l ∈ pieces s) : IsRune l := by
  induction s using pieces_induction with
  | nil => cases h
  | rune l' t hl ih =>
    rw [pieces_rune hl, List.mem_cons] at h
    rcases h with h | h
    · cases h
      exact hl
    · exact ih h
  | stray b t hb ih =>
    rw [pieces_stray hb, List.mem_cons] at h
    exact ih (h.resolve_left Piece.noConfusion)

/-! ## Repair -/

/-- U+FFFD in UTF-8. -/
def runeError : Str := ['\xef', '\xbf', '\xbd']

def Piece.repaired : Piece → Str
  | .rune l => l
  | .stray _ => runeError

/-- Each stray byte replaced by U+FFFD. -/
def repair (s : Str) : Str := (pieces s).flatMap Piece.repaired

@[simp] theorem repair_nil : repair [] = [] := rfl

theorem repair_rune {l : Str} (h : IsRune l) (t : Str) : repair (l ++ t) = l ++ repair t := by
  rw [repair, pieces_rune h, List.flatMap_cons]
  rfl

theorem repair_stray {b : Char} {t : Str} (h : runeSize (b :: t) = none) : repair (b :: t) = runeError ++ repair t := by
  rw [repair, pieces_stray h, List.flatMap_cons]
  rfl

theorem valid_rune {l : Str} (h : IsRune l) (t : Str) : valid (l ++ t) = valid t := by
  rw [valid, pieces_rune h]
  rfl

theorem valid_stray {b : Char} {t : Str} (h : runeSize (b :: t) = none) : valid (b :: t) = false := by
  rw [valid, pieces_stray h]
  rfl

theorem isRune_runeError : IsRune runeError := by
  unfold IsRune
  decide

theorem valid_repair (s : Str) : valid (repair s) = true := by
  induction s using pieces_induction with
  | nil => rfl
  | rune l t hl ih => rw [repair_rune hl, valid_rune hl, ih]
  | stray b t hb ih => rw [repair_stray hb, valid_rune isRune_runeError, ih]

theorem length_le_repair (s : Str) : s.length ≤ (repair s).length := by
  induction s using pieces_induction with
  | nil => exact Nat.le_refl _
  | rune l t hl ih =>
    rw [repair_rune hl, List.length_append, List.length_append]
    omega
  | stray b t hb ih =>
    rw [repair_stray hb, List.length_append, List.length_cons]
    have hlen : runeError.length = 3 := rfl
    omega

theorem repair_eq_nil {s : Str} : repair s = [] ↔ s = [] := by
  constructor
  · intro h
    have hle := length_le_repair s
    rw [h] at hle
    exact List.length_eq_zero_iff.mp (Nat.le_zero.mp hle)
  · intro heq
    rw [heq]
    rfl

/-- Repairing changes exactly the strings that are not valid. -/
theorem repair_eq_iff (s : Str) : repair s = s ↔ valid s = true := by
  induction s using pieces_induction with
  | nil => exact ⟨fun _ => rfl, fun _ => rfl⟩
  | rune l t hl ih => rw [repair_rune hl, valid_rune hl, List.append_right_inj, ih]
  | stray b t hb ih =>
    rw [valid_stray hb, repair_stray hb]
    refine ⟨fun h => ?_, fun h => (by cases h)⟩
    have hlen := congrArg List.length h
    have hle := length_le_repair t
    rw [List.length_append, List.length_cons] at hlen
    have hthree : runeError.length = 3 := rfl
    omega

theorem repair_repair (s : Str) : repair (repair s) = repair s := (repair_eq_iff _).mpr (valid_repair s)

theorem repair_append {x : Char} (hx : x.toNat < 0x80) (s t : Str) : repair (s ++ x :: t) = repair s ++ x :: repair t := by
  induction s using pieces_induction with
  | nil => exact repair_rune (l := [x]) (runeSize_ascii hx []) t
  | rune l s hl ih => rw [List.append_assoc, repair_rune hl, ih, repair_rune hl, List.append_assoc]
  | stray b s hb ih =>
    have hstray := repair_stray (runeSize_stray hb hx t)
    rw [repair_stray hb, List.append_assoc, ← ih]
    exact hstray

/-- Two strings apart keep their places only if both are valid. -/
theorem repair_join_iff (sep : Char) (s t : Str) : repair s ++ sep :: repair t = s ++ sep :: t ↔
    valid s = true ∧ valid t = true := by
  rw [← repair_eq_iff, ← repair_eq_iff]
  constructor
  · intro h
    have hlen := congrArg List.length h
    simp only [List.length_append, List.length_cons] at hlen
    have hs := length_le_repair s
    have ht := length_le_repair t
    obtain ⟨h1, h2⟩ := List.append_inj h (by omega)
    exact ⟨h1, (List.cons.inj h2).2⟩
  · intro hp
    obtain ⟨hs, ht⟩ := hp
    rw [hs, ht]

theorem valid_append {x : Char} (hx : x.toNat < 0x80) (s t : Str) :
    valid (s ++ x :: t) = true ↔ valid s = true ∧ valid t = true := by
  rw [← repair_eq_iff, repair_append hx, repair_join_iff]

theorem valid_of_ascii {s : Str} (h : ∀ x ∈ s, x.toNat < 0x80) : valid s = true := by
  induction s with
  | nil => rfl
  | cons x s ih =>
    obtain ⟨hx, hs⟩ := List.forall_mem_cons.mp h
    exact (valid_append hx [] s).mpr ⟨rfl, ih hs⟩

theorem valid_itoa (i : Nat) : valid (itoa i) = true := by
  refine valid_of_ascii fun x hx => ?_
  have hdigit := isDigit_of_mem_itoa hx
  simp only [Char.isDigit, Bool.and_eq_true, decide_eq_true_eq] at hdigit
  exact lt_of_le_of_lt hdigit.2 (by decide)

example : repair "a\xff\xc3\xa9".toList = "a\xef\xbf\xbd\xc3\xa9".toList := by decide

end GoFastdfs.Go
