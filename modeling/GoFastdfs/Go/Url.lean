/-
  GoFastdfs.Go.Url — escaping and query strings (`net/url`), as far as the server reads
  them from a request line.

  A query is cut at `&`; a piece with a `;` or with a bad escape is passed over, and
  `+` stands for a space in it. A path is escaped byte by byte, and the escaped text has no
  `/` (`slash_notMem_pathEscape`). The path of a URL ends at `?` or `#` and is unescaped, so
  only text without these and `%` stands for itself (`urlPath_plain`).
-/

import GoFastdfs.Go.Text

namespace GoFastdfs.Go

/-! ## Escapes -/

def unhex (c : Char) : Option Nat :=
  if '0' ≤ c ∧ c ≤ '9' then some (c.toNat - 48)
  else if 'a' ≤ c ∧ c ≤ 'f' then some (c.toNat - 87)
  else if 'A' ≤ c ∧ c ≤ 'F' then some (c.toNat - 55)
  else none

def upperhex (n : Nat) : Char := if n < 10 then Char.ofNat (48 + n) else Char.ofNat (55 + n)

/-- `url.unescape`; in a query `+` is a space. An escape that is not two hexadecimal
    digits is an error. -/
def unescape (query : Bool) : Str → Option Str
  | [] => some []
  | '%' :: a :: b :: s =>
    match unhex a, unhex b with
    | some x, some y => (unescape query s).map (Char.ofNat (16 * x + y) :: ·)
    | _, _ => none
  | c :: s => if c = '%' then none else (unescape query s).map ((if query ∧ c = '+' then ' ' else c) :: ·)

def pathUnescape (s : Str) : Option Str := unescape false s

def queryUnescape (s : Str) : Option Str := unescape true s

def pathByte (c : Char) : Bool := c.isAlphanum || c ∈ "-_.~$&+:=@".toList

def pathEscape (s : Str) : Str :=
  s.flatMap fun c => if pathByte c then [c] else ['%', upperhex (c.toNat / 16), upperhex (c.toNat % 16)]

theorem unescape_cons (q : Bool) {c : Char} (hc : c ≠ '%') (s : Str) :
    unescape q (c :: s) = (unescape q s).map ((if q ∧ c = '+' then ' ' else c) :: ·) := by
  rw [unescape]
  · simp [hc]
  · intro a b s' heq _
    subst heq
    exact hc rfl

theorem pathUnescape_of_notMem : ∀ {s : Str}, '%' ∉ s → pathUnescape s = some s
  | [], _ => rfl
  | c :: s, h => by
    simp only [List.mem_cons, not_or] at h
    have hc : c ≠ '%' := Ne.symm h.1
    have ih : unescape false s = some s := pathUnescape_of_notMem h.2
    rw [pathUnescape, unescape_cons false hc, ih]
    simp

/-- An escape does not reach over a `/`: the elements of a path unescape one by one. -/
theorem unescape_append_slash (q : Bool) (s t : Str) :
    unescape q (s ++ '/' :: t) = (unescape q s).bind fun a => (unescape q t).map (a ++ '/' :: ·) := by
  have hslash : unhex '/' = none := by decide
  induction s using unescape.induct with
  | case1 =>
    rw [List.nil_append, unescape_cons q (by decide)]
    simp [unescape]
  | case2 a b s x y hb ha ih =>
    simp only [List.cons_append, unescape, ha, hb, ih]
    cases unescape q s <;> cases unescape q t <;> rfl
  | case3 a b s h =>
    simp only [List.cons_append, unescape]
    rfl
  | case4 s h =>
    have hs : unescape q ('%' :: s) = none := by
      rw [unescape]
      · simp
      · exact h
    rw [hs]
    rcases s with _ | ⟨a, _ | ⟨b, s⟩⟩
    · cases t with
      | nil => rfl
      | cons b t => simp [unescape, hslash]
    · simp [unescape, hslash]
    · exact absurd rfl (h a b s rfl)
  | case5 c s _ hc ih =>
    rw [List.cons_append, unescape_cons q hc, unescape_cons q hc, ih]
    cases unescape q s <;> cases unescape q t <;> rfl

theorem upperhex_ne_slash (n : Nat) : upperhex n ≠ '/' := by
  unfold upperhex
  split
  · rename_i h
    revert n; decide
  · intro h
    by_cases hv : (55 + n).isValidChar
    · have ht := congrArg Char.toNat h
      rw [Char.ofNat, dif_pos hv] at ht
      have : 55 + n = 47 := ht
      omega
    · rw [Char.ofNat, dif_neg hv] at h
      exact absurd h (by decide)

/-- An escaped name is one element of a path. -/
theorem slash_notMem_pathEscape (s : Str) : '/' ∉ pathEscape s := by
  intro h
  obtain ⟨x, _, hc⟩ := List.mem_flatMap.mp h
  by_cases hp : pathByte x = true
  · rw [if_pos hp, List.mem_singleton] at hc
    subst hc
    exact absurd hp (by decide)
  · rw [if_neg hp] at hc
    simp only [List.mem_cons, List.not_mem_nil, or_false] at hc
    rcases hc with hc | hc | hc
    · exact absurd hc (by decide)
    · exact upperhex_ne_slash _ hc.symm
    · exact upperhex_ne_slash _ hc.symm

/-! ## Queries -/

def afterFirst (c : Char) (s : Str) : Option Str := if c ∈ s then some (s.drop ((splitHead c s).length + 1)) else none

/-- One piece of a query: `none` where `url.ParseQuery` passes over it. -/
def parsePair (s : Str) : Option (Str × Str) :=
  if ';' ∈ s ∨ s = [] then none else
  match queryUnescape (splitHead '=' s), queryUnescape ((afterFirst '=' s).getD []) with
  | some k, some v => some (k, v)
  | _, _ => none

def parseQuery (s : Str) : List (Str × Str) := (s.splitOn '&').filterMap parsePair

def rawQuery (uri : Str) : Str := (afterFirst '?' uri).getD []

/-! ## Paths of URLs -/

def ctlByte (c : Char) : Bool := c.toNat < 0x20 || c.toNat == 0x7f

/-- `Path` of `url.Parse`, of the text behind the host; `none` where it is an error. -/
def urlPath (s : Str) : Option Str :=
  let u := splitHead '#' s
  if u.any ctlByte then none
  else if (pathUnescape ((afterFirst '#' s).getD [])).isNone then none
  else pathUnescape (splitHead '?' u)

/-- Text that stands for itself in the path of a URL. -/
def PathText (s : Str) : Prop := ∀ x ∈ s, x ≠ '#' ∧ x ≠ '?' ∧ x ≠ '%' ∧ ctlByte x = false

instance (s : Str) : Decidable (PathText s) := List.decidableBAll _ s

theorem PathText.append {s t : Str} (hs : PathText s) (ht : PathText t) : PathText (s ++ t) := by
  intro x hx
  exact (List.mem_append.mp hx).elim (hs x) (ht x)

theorem urlPath_plain {s : Str} (h : PathText s) : urlPath s = some s := by
  have hhash : '#' ∉ s := fun hm => (h _ hm).1 rfl
  have hquery : '?' ∉ s := fun hm => (h _ hm).2.1 rfl
  have hescape : '%' ∉ s := fun hm => (h _ hm).2.2.1 rfl
  have hctl : s.any ctlByte = false := by
    rw [List.any_eq_false]
    exact fun x hx => by simp [(h x hx).2.2.2]
  have hfragment : (pathUnescape ((afterFirst '#' s).getD [])).isNone = false := by
    rw [afterFirst, if_neg hhash]
    rfl
  unfold urlPath
  dsimp only
  rw [splitHead_of_notMem hhash, splitHead_of_notMem hquery, hctl, hfragment, if_neg Bool.false_ne_true,
    if_neg Bool.false_ne_true, pathUnescape_of_notMem hescape]

end GoFastdfs.Go
