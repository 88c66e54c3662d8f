/-
  GoFastdfs.Go.Text — the parts of Go's `strings`, `strconv` and `path` used by the server.

  A Go string is its bytes; a byte is written as the character of that code, so a
  string and a `[]byte` are both a `Str`. Every separator the server splits at is one
  byte (`List.splitOn`).
-/

import Mathlib.Algebra.Order.Ring.Int
import Mathlib.Data.Char
import Mathlib.Data.List.Basic
import Mathlib.Data.List.Lex
import Mathlib.Data.List.Infix
import Mathlib.Data.List.TakeWhile
import Mathlib.Data.List.DropRight

namespace GoFastdfs.Go

abbrev Str := List Char

/-! ## Prefixes, pieces and replacement -/

def hasPrefix (s p : Str) : Bool := p.isPrefixOf s

def contains (s sub : Str) : Bool := s.tails.any (sub.isPrefixOf ·)

def splitHead (c : Char) (s : Str) : Str := (s.splitOn c).headI

/-- What follows the last `c`: `s[strings.LastIndex(s, c)+1:]`. -/
def afterLast (c : Char) (s : Str) : Str := s.rtakeWhile (· != c)

def replaceFirst (old new : Str) : Str → Str
  | [] => if old = [] then new else []
  | c :: cs =>
    if old.isPrefixOf (c :: cs) then new ++ (c :: cs).drop old.length else c :: replaceFirst old new cs

/-- The scan of `replaceAll`: `skip` bytes of a match are still to be passed over. -/
def replaceScan (old new : Str) : Nat → Str → Str
  | _, [] => []
  | skip + 1, _ :: cs => replaceScan old new skip cs
  | 0, c :: cs =>
    if old.isPrefixOf (c :: cs) then new ++ replaceScan old new (old.length - 1) cs
    else c :: replaceScan old new 0 cs

/-- `strings.Replace(s, old, new, -1)`, for a non-empty `old`. -/
def replaceAll (old new s : Str) : Str := replaceScan old new 0 s

def trimSuffix (s suffix : Str) : Str := if suffix.isSuffixOf s then s.take (s.length - suffix.length) else s

def trim (c : Char) (s : Str) : Str := (s.dropWhile (· == c)).rdropWhile (· == c)

@[simp] theorem hasPrefix_iff {s p : Str} : hasPrefix s p = true ↔ p <+: s := by
  simp [hasPrefix]

theorem contains_iff {s sub : Str} : contains s sub = true ↔ sub <:+: s := by
  simp only [contains, List.any_eq_true, List.mem_tails, List.isPrefixOf_iff_prefix, List.infix_iff_prefix_suffix]
  exact exists_congr fun _ => and_comm

theorem hasPrefix_append (p s : Str) : hasPrefix (p ++ s) p = true := by simp

theorem splitHead_append {c : Char} {s : Str} (h : c ∉ s) (t : Str) : splitHead c (s ++ c :: t) = s := by
  simp [splitHead, List.splitOn_append_cons_self_of_not_mem h]

theorem splitHead_cons {c x : Char} {s : Str} (h : x ≠ c) : splitHead c (x :: s) = x :: splitHead c s := by
  rcases hs : s.splitOn c with _ | ⟨a, l⟩
  · exact absurd hs (List.splitOn_ne_nil c s)
  · simp [splitHead, List.splitOn_cons_eq_if_modifyHead, h, hs]

theorem splitHead_append_left {c : Char} : ∀ {s : Str}, c ∉ s → ∀ t : Str, splitHead c (s ++ t) = s ++ splitHead c t
  | [], _, t => rfl
  | x :: s, h, t => by
    simp only [List.mem_cons, not_or] at h
    rw [List.cons_append, splitHead_cons (Ne.symm h.1), splitHead_append_left h.2 t, List.cons_append]

theorem notMem_splitHead (c : Char) : ∀ s : Str, c ∉ splitHead c s
  | [] => by simp [splitHead, List.splitOn_nil]
  | x :: s => by
    by_cases h : x = c
    · subst h; simp [splitHead, List.splitOn_cons_eq_if_modifyHead]
    · rw [splitHead_cons h]
      simp only [List.mem_cons, not_or]
      exact ⟨Ne.symm h, notMem_splitHead c s⟩

theorem mem_of_mem_splitHead {c x : Char} : ∀ {s : Str}, x ∈ splitHead c s → x ∈ s
  | [], h => by simp [splitHead, List.splitOn_nil] at h
  | y :: s, h => by
    by_cases e : y = c
    · subst e; simp [splitHead, List.splitOn_cons_eq_if_modifyHead] at h
    · rw [splitHead_cons e] at h
      rcases List.mem_cons.mp h with rfl | h
      · exact List.mem_cons_self
      · exact List.mem_cons_of_mem _ (mem_of_mem_splitHead h)

theorem mem_of_mem_splitOn {c x : Char} {s e : Str} (he : e ∈ s.splitOn c) (hx : x ∈ e) : x ∈ s := by
  induction s generalizing e with
  | nil =>
    rw [List.splitOn_nil, List.mem_singleton] at he
    subst he
    cases hx
  | cons y s ih =>
    rw [List.splitOn_cons_eq_if_modifyHead] at he
    split at he
    · rcases List.mem_cons.mp he with rfl | he
      · cases hx
      · exact List.mem_cons_of_mem _ (ih he hx)
    · rcases hs : s.splitOn c with _ | ⟨a, l⟩
      · exact absurd hs (List.splitOn_ne_nil c s)
      · rw [hs] at he ih
        rcases List.mem_cons.mp he with rfl | he
        · rcases List.mem_cons.mp hx with rfl | hx
          · exact List.mem_cons_self
          · exact List.mem_cons_of_mem _ (ih List.mem_cons_self hx)
        · exact List.mem_cons_of_mem _ (ih (List.mem_cons_of_mem _ he) hx)

theorem afterLast_append {c : Char} {s : Str} (h : c ∉ s) (t : Str) : afterLast c (t ++ c :: s) = s := by
  induction s using List.reverseRecOn with
  | nil => simp [afterLast]
  | append_singleton s x ih =>
    simp only [List.mem_append, List.mem_singleton, not_or] at h
    have hx : (x != c) = true := by simpa using Ne.symm h.2
    have := ih h.1
    simp only [afterLast] at this ⊢
    rw [← List.cons_append, ← List.append_assoc, List.rtakeWhile_concat, if_pos hx, this]

theorem notMem_afterLast (c : Char) (s : Str) : c ∉ afterLast c s := by
  intro h
  have := List.mem_rtakeWhile_imp h
  simp at this

theorem mem_of_mem_afterLast {c x : Char} {s : Str} (h : x ∈ afterLast c s) : x ∈ s :=
  (List.rtakeWhile_suffix _ s).subset h

theorem afterLast_of_notMem {c : Char} {s : Str} (h : c ∉ s) : afterLast c s = s :=
  List.rtakeWhile_eq_self_iff.mpr fun x hx => by
    simp only [bne_iff_ne, ne_eq]
    intro e
    subst e
    exact h hx

theorem append_cons_inj {c : Char} {a b x y : Str} (ha : c ∉ a) (hb : c ∉ b) (h : a ++ c :: x = b ++ c :: y) :
    a = b ∧ x = y := by
  have hs := congrArg (splitHead c) h
  rw [splitHead_append ha, splitHead_append hb] at hs
  subst hs
  exact ⟨rfl, (List.cons.inj (List.append_cancel_left h)).2⟩

/-- What stands before the first separator is read off the text up to any separator. -/
theorem exists_splitHead_append (c : Char) (s t : Str) : ∃ u, s ++ c :: t = splitHead c s ++ c :: u := by
  induction s with
  | nil => exact ⟨t, rfl⟩
  | cons x s ih =>
    by_cases h : x = c
    · subst h
      refine ⟨s ++ x :: t, ?_⟩
      simp [splitHead, List.splitOn_cons_eq_if_modifyHead]
    · obtain ⟨u, hu⟩ := ih
      exact ⟨u, by rw [splitHead_cons h, List.cons_append, hu, List.cons_append]⟩

theorem splitHead_append_cons (c : Char) (s t : Str) : splitHead c (s ++ c :: t) = splitHead c s := by
  obtain ⟨u, hu⟩ := exists_splitHead_append c s t
  rw [hu, splitHead_append (notMem_splitHead c s)]

theorem splitHead_of_notMem {c : Char} {s : Str} (h : c ∉ s) : splitHead c s = s := by
  have happ := splitHead_append_left h []
  have hnil : splitHead c [] = [] := rfl
  rwa [hnil, List.append_nil] at happ

/-- A text is its part before the first separator, and the rest with the separator. -/
theorem exists_eq_splitHead_append (c : Char) (s : Str) : ∃ t, s = splitHead c s ++ t ∧ (t = [] ∨ ∃ u, t = c :: u) := by
  by_cases h : c ∈ s
  · obtain ⟨a, b, rfl⟩ := List.append_of_mem h
    obtain ⟨u, hu⟩ := exists_splitHead_append c a b
    exact ⟨c :: u, by rw [splitHead_append_cons]; exact hu, Or.inr ⟨u, rfl⟩⟩
  · exact ⟨[], by rw [splitHead_of_notMem h, List.append_nil], Or.inl rfl⟩

theorem splitHead_append_of_mem {c : Char} {s : Str} (h : c ∈ s) (t : Str) : splitHead c (s ++ t) = splitHead c s := by
  obtain ⟨a, b, rfl⟩ := List.append_of_mem h
  rw [List.append_assoc, List.cons_append, splitHead_append_cons, splitHead_append_cons]

theorem append_isPrefix_iff {c : Char} {g : Str} (hg : c ∉ g) (s t : Str) :
    g ++ [c] <+: s ++ c :: t ↔ splitHead c s = g := by
  obtain ⟨u, hu⟩ := exists_splitHead_append c s t
  constructor
  · intro h
    obtain ⟨v, hv⟩ := h
    rw [hu, List.append_assoc] at hv
    exact (append_cons_inj hg (notMem_splitHead c s) hv).1.symm
  · intro h
    subst h
    exact ⟨u, by rw [hu]; simp⟩

theorem replaceFirst_append (old new s : Str) : replaceFirst old new (old ++ s) = new ++ s := by
  cases old with
  | nil => cases s <;> simp [replaceFirst]
  | cons c cs => simp [replaceFirst]

theorem mem_of_mem_replaceScan {old s : Str} {x : Char} : ∀ {skip : Nat}, x ∈ replaceScan old [] skip s → x ∈ s := by
  induction s with
  | nil => intro skip h; simp [replaceScan] at h
  | cons c cs ih =>
    intro skip h
    cases skip with
    | succ skip => exact List.mem_cons_of_mem _ (ih h)
    | zero =>
      rw [replaceScan] at h
      split at h
      · exact List.mem_cons_of_mem _ (ih (by simpa using h))
      · rcases List.mem_cons.mp h with h | h
        · exact h ▸ List.mem_cons_self
        · exact List.mem_cons_of_mem _ (ih h)

theorem mem_of_mem_replaceAll {old s : Str} {x : Char} (h : x ∈ replaceAll old [] s) : x ∈ s := mem_of_mem_replaceScan h

/-- A text without `old` is left as it is. -/
theorem replaceAll_of_not_infix {old : Str} (new : Str) : ∀ {s : Str}, ¬ old <:+: s → replaceAll old new s = s
  | [], _ => rfl
  | c :: s, h => by
    rw [List.infix_cons_iff, not_or] at h
    have hrest := replaceAll_of_not_infix new h.2
    simp only [replaceAll, replaceScan, List.isPrefixOf_iff_prefix, h.1, if_false] at hrest ⊢
    rw [hrest]

theorem replaceAll_pair_cons_cons (c x y : Char) (s : Str) :
    replaceAll [c, c] [] (x :: y :: s) =
      if x = c ∧ y = c then replaceAll [c, c] [] s else x :: replaceAll [c, c] [] (y :: s) := by
  by_cases h : x = c ∧ y = c
  · obtain ⟨rfl, rfl⟩ := h
    simp [replaceAll, replaceScan]
  · have hp : [c, c].isPrefixOf (x :: y :: s) = false := by
      simp only [List.isPrefixOf, Bool.and_true, Bool.and_eq_false_iff, beq_eq_false_iff_ne]
      tauto
    simp only [replaceAll, replaceScan, hp, h, Bool.false_eq_true, if_false]

theorem replaceAll_pair_cons_of_ne {c y : Char} (h : y ≠ c) (s : Str) :
    replaceAll [c, c] [] (y :: s) = y :: replaceAll [c, c] [] s := by
  cases s with
  | nil => simp [replaceAll, replaceScan]
  | cons z s => rw [replaceAll_pair_cons_cons, if_neg fun hyz => h hyz.1]

/-- With every `cc` left out none is left: at most one `c` of a run of them is kept. -/
theorem not_infix_replaceAll_pair (c : Char) : ∀ s : Str, ¬ [c, c] <:+: replaceAll [c, c] [] s
  | [] => by simp [replaceAll, replaceScan]
  | [x] => by
    intro h
    have hlen := h.length_le
    simp [replaceAll, replaceScan] at hlen
  | x :: y :: s => by
    rw [replaceAll_pair_cons_cons]
    split
    · exact not_infix_replaceAll_pair c s
    · rename_i hxy
      rw [List.infix_cons_iff, not_or]
      refine ⟨?_, not_infix_replaceAll_pair c (y :: s)⟩
      intro hp
      -- the second of the two would be the first byte kept of `y :: s`, which is `y`
      obtain ⟨hx, hp⟩ := List.cons_prefix_cons.mp hp
      have hy : y ≠ c := fun e => hxy ⟨hx.symm, e⟩
      rw [replaceAll_pair_cons_of_ne hy] at hp
      exact hy (List.cons_prefix_cons.mp hp).1.symm

theorem notMem_replaceAll_singleton (c : Char) : ∀ s : Str, c ∉ replaceAll [c] [] s
  | [] => List.not_mem_nil
  | x :: s => by
    have hrest := notMem_replaceAll_singleton c s
    by_cases hx : x = c
    · subst hx
      simpa [replaceAll, replaceScan] using hrest
    · have hp : [c].isPrefixOf (x :: s) = false := by
        simpa [List.isPrefixOf] using fun e : c = x => hx e.symm
      simp only [replaceAll, replaceScan, hp, Bool.false_eq_true, if_false] at hrest ⊢
      exact List.not_mem_cons_of_ne_of_not_mem (Ne.symm hx) hrest

theorem replaceAll_pair_pair (c : Char) (new s : Str) :
    replaceAll [c, c] new (c :: c :: s) = new ++ replaceAll [c, c] new s := by
  simp [replaceAll, replaceScan]

theorem replaceAll_pair_append {c : Char} (new : Str) : ∀ {s : Str} (t : Str), ¬ [c, c] <:+: s → s.getLast? ≠ some c →
    replaceAll [c, c] new (s ++ t) = s ++ replaceAll [c, c] new t
  | [], _, _, _ => rfl
  | x :: s, t, h, hlast => by
    rw [List.infix_cons_iff, not_or] at h
    have hp : [c, c].isPrefixOf (x :: (s ++ t)) = false := by
      rw [Bool.eq_false_iff, ne_eq, List.isPrefixOf_iff_prefix, List.cons_prefix_cons]
      intro hex
      obtain ⟨rfl, hp⟩ := hex
      cases s with
      | nil => exact hlast rfl
      | cons y s =>
        have hy := (List.cons_prefix_cons.mp hp).1
        exact h.1 (List.cons_prefix_cons.mpr ⟨rfl, List.cons_prefix_cons.mpr ⟨hy, List.nil_prefix⟩⟩)
    have hlast' : s.getLast? ≠ some c := by
      cases s with
      | nil => simp
      | cons y s => simpa using hlast
    have hrest := replaceAll_pair_append new t h.2 hlast'
    simp only [replaceAll, List.cons_append, replaceScan, hp, Bool.false_eq_true, if_false] at hrest ⊢
    rw [hrest]

@[simp] theorem replaceFirst_nil (s : Str) : replaceFirst [] [] s = s := by
  cases s <;> simp [replaceFirst]

theorem trimSuffix_append (s suffix : Str) : trimSuffix (s ++ suffix) suffix = s := by
  have h : suffix.isSuffixOf (s ++ suffix) = true := List.isSuffixOf_iff_suffix.mpr (List.suffix_append s suffix)
  simp [trimSuffix, h]

theorem splitOn_lines {α : Type} {c : Char} {body : α → Str} : ∀ {rows : List α}, (∀ r ∈ rows, c ∉ body r) →
    (rows.flatMap fun r => body r ++ [c]).splitOn c = rows.map body ++ [[]]
  | [], _ => rfl
  | r :: rows, h => by
    have hrest : (rows.flatMap fun r => body r ++ [c]).splitOn c = rows.map body ++ [[]] :=
      splitOn_lines fun r' hr' => h r' (List.mem_cons_of_mem _ hr')
    rw [List.flatMap_cons, List.append_assoc, List.singleton_append,
      List.splitOn_append_cons_self_of_not_mem (h r List.mem_cons_self), hrest]
    rfl

theorem mem_of_mem_intercalate {c x : Char} : ∀ {ls : List Str}, x ∈ [c].intercalate ls → x = c ∨ ∃ l ∈ ls, x ∈ l
  | [], h => absurd h List.not_mem_nil
  | [l], h => Or.inr ⟨l, List.mem_singleton_self l, by simpa [List.intercalate] using h⟩
  | l :: l' :: ls, h => by
    rw [List.intercalate_cons_cons, List.mem_append, List.mem_append, List.mem_singleton] at h
    rcases h with (h | h) | h
    · exact Or.inr ⟨l, List.mem_cons_self, h⟩
    · exact Or.inl h
    · rcases mem_of_mem_intercalate h with h | h
      · exact Or.inl h
      · obtain ⟨k, hk, hx⟩ := h
        exact Or.inr ⟨k, List.mem_cons_of_mem _ hk, hx⟩

/-! ## Numbers -/

def itoa : Int → Str
  | .ofNat n => Nat.toDigits 10 n
  | .negSucc n => '-' :: Nat.toDigits 10 (n + 1)

def parseDigits (s : Str) : Option Nat :=
  if s ≠ [] ∧ s.all Char.isDigit = true then some (Nat.ofDigitChars 10 s 0) else none

/-- `strconv.ParseInt(s, 10, 64)` and `strconv.Atoi`: the value returned, and whether
    the error is nil. A number out of range gives the nearest bound with an error. -/
def parseInt (s : Str) : Int × Bool :=
  let neg := s.head? == some '-'
  let digits := if s.head? == some '-' || s.head? == some '+' then s.tail else s
  match parseDigits digits with
  | none => (0, false)
  | some n =>
    if neg then if n ≤ 2 ^ 63 then (-(n : Int), true) else (-2 ^ 63, false)
    else if n < 2 ^ 63 then ((n : Int), true) else (2 ^ 63 - 1, false)

theorem itoa_ofNat (n : Nat) : itoa (n : Int) = Nat.toDigits 10 n := rfl

theorem isDigit_of_mem_itoa {n : Nat} {c : Char} (h : c ∈ itoa (n : Int)) : c.isDigit = true :=
  Nat.isDigit_of_mem_toDigits (by decide) (by decide) h

theorem notMem_itoa {c : Char} (hc : c.isDigit = false) (n : Nat) : c ∉ itoa (n : Int) := by
  intro h
  rw [isDigit_of_mem_itoa h] at hc
  cases hc

theorem notMem_itoa_int {c : Char} (hc : c.isDigit = false) (hneg : c ≠ '-') : ∀ t : Int, c ∉ itoa t
  | .ofNat n => notMem_itoa hc n
  | .negSucc n => by
    intro h
    rcases List.mem_cons.mp h with h | h
    · exact hneg h
    · exact notMem_itoa hc (n + 1) h

theorem itoa_ne_nil (n : Nat) : itoa (n : Int) ≠ [] := Nat.toDigits_ne_nil

theorem itoa_injective {m n : Nat} (h : itoa (m : Int) = itoa (n : Int)) : m = n := by
  have := congrArg (Nat.ofDigitChars 10 · 0) h
  simpa [itoa_ofNat] using this

theorem parseDigits_itoa (n : Nat) : parseDigits (itoa (n : Int)) = some n := by
  have hall : (itoa (n : Int)).all Char.isDigit = true :=
    List.all_eq_true.mpr fun c hc => isDigit_of_mem_itoa hc
  simp only [parseDigits, ne_eq, itoa_ne_nil, not_false_eq_true, hall, and_self, if_true]
  simp [itoa_ofNat]

theorem head_itoa_ne {c : Char} (hc : c.isDigit = false) (n : Nat) : ((itoa (n : Int)).head? == some c) = false := by
  rw [beq_eq_false_iff_ne]
  intro e
  exact notMem_itoa hc n (List.mem_of_mem_head? e)

/-- What `%d` prints of a number in range, `ParseInt` reads back. -/
theorem parseInt_itoa {n : Nat} (h : n < 2 ^ 63) : parseInt (itoa (n : Int)) = ((n : Int), true) := by
  simp only [parseInt, head_itoa_ne (c := '-') (by decide), head_itoa_ne (c := '+') (by decide), Bool.or_self,
    Bool.false_eq_true, if_false, parseDigits_itoa, h, if_true]

/-- Every int64 is read back. -/
theorem parseInt_itoa_int64 {t : Int} (h1 : -2 ^ 63 ≤ t) (h2 : t < 2 ^ 63) : parseInt (itoa t) = (t, true) := by
  cases t with
  | ofNat n => exact parseInt_itoa (by simp only [Int.ofNat_eq_natCast] at h2; omega)
  | negSucc n =>
    have hneg : itoa (Int.negSucc n) = '-' :: itoa ((n + 1 : Nat) : Int) := rfl
    have hle : n + 1 ≤ 2 ^ 63 := by omega
    rw [hneg]
    simp only [parseInt, List.head?_cons, beq_self_eq_true, Bool.true_or, if_true, List.tail_cons, parseDigits_itoa, hle]
    rfl

/-- What `ParseInt` makes of a printed number is that number, or an error. -/
theorem eq_of_parseInt_itoa {t u : Int} (h : parseInt (itoa t) = (u, true)) : u = t := by
  cases t with
  | ofNat n =>
    change parseInt (itoa (n : Int)) = (u, true) at h
    simp only [parseInt, head_itoa_ne (c := '-') (by decide), head_itoa_ne (c := '+') (by decide), Bool.or_self,
      Bool.false_eq_true, if_false, parseDigits_itoa] at h
    split at h
    · exact (congrArg Prod.fst h).symm
    · exact absurd (congrArg Prod.snd h) (by simp)
  | negSucc n =>
    have hneg : itoa (Int.negSucc n) = '-' :: itoa ((n + 1 : Nat) : Int) := rfl
    rw [hneg] at h
    simp only [parseInt, List.head?_cons, beq_self_eq_true, Bool.true_or, if_true, List.tail_cons, parseDigits_itoa] at h
    split at h
    · have hu : -((n + 1 : Nat) : Int) = u := congrArg Prod.fst h
      omega
    · exact absurd (congrArg Prod.snd h) (by simp)

/-! ## Paths -/

/-- `path.Ext`: from the last dot of the last element of the path. -/
def pathExt (s : Str) : Str :=
  let b := afterLast '/' s
  if '.' ∈ b then '.' :: afterLast '.' b else []

def pathBase (s : Str) : Str :=
  if s = [] then ['.'] else
    let b := afterLast '/' (s.rdropWhile (· == '/'))
    if b = [] then ['/'] else b

/-- One element of a path, on the reversed elements kept so far. -/
def cleanStep (rooted : Bool) (kept : List Str) (e : Str) : List Str :=
  if e = [] ∨ e = ['.'] then kept
  else if e = ['.', '.'] then
    match kept with
    | [] => if rooted then [] else [e]
    | k :: ks => if k = ['.', '.'] then e :: kept else ks
  else e :: kept

def pathClean (s : Str) : Str :=
  let rooted := s.head? == some '/'
  let kept := ((s.splitOn '/').foldl (cleanStep rooted) []).reverse
  if rooted then '/' :: ['/'].intercalate kept
  else if kept = [] then ['.'] else ['/'].intercalate kept

def pathDir (s : Str) : Str := pathClean (s.take (s.length - (afterLast '/' s).length))

theorem slash_notMem_pathExt (s : Str) : '/' ∉ pathExt s := by
  simp only [pathExt]
  split
  · intro h
    rcases List.mem_cons.mp h with h | h
    · exact absurd h (by decide)
    · exact notMem_afterLast '/' s (mem_of_mem_afterLast h)
  · simp

theorem pathBase_of_notMem {s : Str} (h0 : s ≠ []) (h : '/' ∉ s) : pathBase s = s := by
  have hr : s.rdropWhile (· == '/') = s := by
    rw [List.rdropWhile_eq_self_iff]
    intro hl
    simp only [beq_iff_eq]
    intro e
    exact h (e ▸ List.getLast_mem hl)
  simp only [pathBase, h0, if_false, hr, afterLast_of_notMem h]

end GoFastdfs.Go
