/-
  GoFastdfs.Jsoniter — strings, numbers and structs as JSON text (`json-iterator/go`, under the
  configuration `ConfigCompatibleWithStandardLibrary`).

  A reader takes the text that is left and gives the value with the text after it; `none` is an
  iterator with an error, which every reader after it keeps. Loops over the text carry a number
  of turns that no text of its length uses up. A struct is read by the decoder for fields
  in any order; what a field's name selects, and how the value of an unknown field is skipped,
  are parameters.

  Proved: a string written and read is the string repaired (`readString_write`), so what comes
  back is always valid UTF-8, and the fast path of the reader agrees with the slow one
  (`fastString_slow`); every int64 is read back (`readInt_itoa`), and so is a list of strings
  (`readStrings_write`).
-/

import GoFastdfs.Go.Utf8

namespace GoFastdfs.Jsoniter

open Go (Str Piece IsRune)

/-! ## Writing -/

def hex (n : Nat) : Char := "0123456789abcdef".toList.getD n '0'

def htmlSafe (b : Char) : Bool := 0x20 ≤ b.toNat && b != '"' && b != '\\' && b != '<' && b != '>' && b != '&'

def writeAscii (b : Char) : Str :=
  if htmlSafe b = true then [b]
  else if b = '\\' ∨ b = '"' then ['\\', b]
  else if b = '\n' then ['\\', 'n']
  else if b = '\r' then ['\\', 'r']
  else if b = '\t' then ['\\', 't']
  else "\\u00".toList ++ [hex (b.toNat / 16), hex (b.toNat % 16)]

def writePiece : Piece → Str
  | .rune [] => []
  | .rune (b :: l) =>
    if b.toNat < 0x80 then writeAscii b
    else if b :: l = ['\xe2', '\x80', '\xa8'] then "\\u2028".toList
    else if b :: l = ['\xe2', '\x80', '\xa9'] then "\\u2029".toList
    else b :: l
  | .stray _ => "\\ufffd".toList

def writeBody (s : Str) : Str := (Go.pieces s).flatMap writePiece

def writeString (s : Str) : Str := '"' :: writeBody s ++ ['"']

/-- The encoder of `[]string`; a list does not tell whether the slice is nil. -/
def writeStrings (isNil : Bool) (l : List Str) : Str :=
  if isNil = true ∧ l = [] then "null".toList
  else '[' :: [','].intercalate (l.map writeString) ++ [']']

/-! ## Reading -/

def nextToken : Str → Option (Char × Str)
  | [] => none
  | c :: s => if c = ' ' ∨ c = '\n' ∨ c = '\t' ∨ c = '\r' then nextToken s else some (c, s)

def skipNull : Str → Option Str
  | 'u' :: 'l' :: 'l' :: s => some s
  | _ => none

def hexVal (c : Char) : Option Nat :=
  if '0' ≤ c ∧ c ≤ '9' then some (c.toNat - 48)
  else if 'a' ≤ c ∧ c ≤ 'f' then some (c.toNat - 87)
  else if 'A' ≤ c ∧ c ≤ 'F' then some (c.toNat - 55)
  else none

def readU4 : Str → Option (Nat × Str)
  | a :: b :: c :: d :: s =>
    match hexVal a, hexVal b, hexVal c, hexVal d with
    | some a, some b, some c, some d => some (((a * 16 + b) * 16 + c) * 16 + d, s)
    | _, _, _, _ => none
  | _ => none

def appendRune (r : Nat) : Str :=
  if r ≤ 0x7F then [Char.ofNat r]
  else if r ≤ 0x7FF then [Char.ofNat (0xC0 + r / 64), Char.ofNat (0x80 + r % 64)]
  else if 0x10FFFF < r ∨ 0xD800 ≤ r ∧ r ≤ 0xDFFF then Go.runeError
  else if r ≤ 0xFFFF then
    [Char.ofNat (0xE0 + r / 4096), Char.ofNat (0x80 + r / 64 % 64), Char.ofNat (0x80 + r % 64)]
  else
    [Char.ofNat (0xF0 + r / 262144), Char.ofNat (0x80 + r / 4096 % 64), Char.ofNat (0x80 + r / 64 % 64),
      Char.ofNat (0x80 + r % 64)]

def decodePair (r r' : Nat) : Option Nat :=
  if 0xD800 ≤ r ∧ r < 0xDC00 ∧ 0xDC00 ≤ r' ∧ r' < 0xE000 then some ((r - 0xD800) * 1024 + (r' - 0xDC00) + 0x10000)
  else none

def escapedChar : Char → Option Str
  | '"' => some ['"']
  | '\\' => some ['\\']
  | '/' => some ['/']
  | 'b' => some ['\x08']
  | 'f' => some ['\x0c']
  | 'n' => some ['\n']
  | 'r' => some ['\r']
  | 't' => some ['\t']
  | _ => none

/-- `readEscapedChar`: the bytes it appends. A half of a pair without the other gives U+FFFD. -/
def readEscapedChar (c : Char) (s : Str) : Option (Str × Str) :=
  if c = 'u' then
    (readU4 s).bind fun (r, s) =>
      if 0xD800 ≤ r ∧ r ≤ 0xDFFF then
        match s with
        | '\\' :: 'u' :: s => (readU4 s).map fun (r', s) =>
            match decodePair r r' with
            | some combined => (appendRune combined, s)
            | none => (appendRune r ++ appendRune r', s)
        | '\\' :: c :: s => (escapedChar c).map fun x => (appendRune r ++ x, s)
        | ['\\'] => none
        | [] => none
        | c :: s => some (appendRune r, c :: s)
      else some (appendRune r, s)
  else (escapedChar c).map fun x => (x, s)

def readStringSlowPath : Nat → Str → Option (Str × Str)
  | 0, _ => none
  | _ + 1, [] => none
  | n + 1, c :: s =>
    if c = '"' then some ([], s)
    else if c = '\\' then
      match s with
      | [] => none
      | e :: s => (readEscapedChar e s).bind fun (x, s) => (readStringSlowPath n s).map fun (y, s) => (x ++ y, s)
    else (readStringSlowPath n s).map fun (y, s) => (c :: y, s)

inductive FastEnd where
  | found (x s : Str)
  | slow
  | control
  deriving DecidableEq

def fastString : Str → FastEnd
  | [] => .slow
  | c :: s =>
    if c = '"' then .found [] s
    else if c = '\\' then .slow
    else if c < ' ' then .control
    else
      match fastString s with
      | .found x s => .found (c :: x) s
      | e => e

/-- The rest of `ReadString` after the quote. -/
def readBody (s : Str) : Option (Str × Str) :=
  match fastString s with
  | .found x s => some (x, s)
  | .slow => readStringSlowPath (s.length + 1) s
  | .control => none

def readString (s : Str) : Option (Str × Str) :=
  match nextToken s with
  | some ('"', s) => readBody s
  | some ('n', s) => (skipNull s).map fun s => ([], s)
  | _ => none

def intDigit (c : Char) : Option Nat := if '0' ≤ c ∧ c ≤ '9' then some (c.toNat - 48) else none

/-- The loop of `readUint64`; its test for overflow compares two numbers of 64 bits. -/
def readDigits : Nat → Str → Option (Nat × Str)
  | value, [] => some (value, [])
  | value, c :: s =>
    match intDigit c with
    | none => if c = '.' then none else some (value, c :: s)
    | some ind =>
      if (2 ^ 64 - 1) / 10 - 1 < value then
        let value2 := (value * 10 + ind) % 2 ^ 64
        if value2 < value then none else readDigits value2 s
      else readDigits (value * 10 + ind) s

def readUint64 : Str → Option (Nat × Str)
  | [] => none
  | c :: s =>
    match intDigit c with
    | none => none
    | some 0 => if s.head? = some '.' then none else some (0, s)
    | some ind => readDigits ind s

def readInt64 (s : Str) : Option (Int × Str) :=
  match nextToken s with
  | none => none
  | some (c, s) =>
    if c = '-' then (readUint64 s).bind fun (v, s) => if v ≤ 2 ^ 63 then some (-(v : Int), s) else none
    else (readUint64 (c :: s)).bind fun (v, s) => if v < 2 ^ 63 then some ((v : Int), s) else none

/-- The decoder of an int64 that is `old`; `null` leaves it. -/
def readInt (old : Int) (s : Str) : Option (Int × Str) :=
  match nextToken s with
  | some ('n', s) => (skipNull s).map fun s => (old, s)
  | _ => readInt64 s

def readElements : Nat → Str → Option (List Str × Str)
  | 0, _ => none
  | n + 1, s => (readString s).bind fun (x, s) =>
      match nextToken s with
      | some (',', s) => (readElements n s).map fun (l, s) => (x :: l, s)
      | some (']', s) => some ([x], s)
      | _ => none

def readStrings (s : Str) : Option (List Str × Str) :=
  match nextToken s with
  | some ('n', s) => (skipNull s).map fun s => ([], s)
  | some ('[', s) =>
    match nextToken s with
    | some (']', s) => some ([], s)
    | _ => readElements (s.length + 1) s
  | _ => none

section
variable {σ : Type} (field : Str → Option (σ → Str → Option (σ × Str))) (skip : Str → Option Str)

def readFields : Nat → σ → Str → Option (σ × Str)
  | 0, _, _ => none
  | n + 1, v, s => (readString s).bind fun (name, s) =>
      match nextToken s with
      | some (':', s) =>
        (match field name with
          | some decode => decode v s
          | none => (skip s).map fun s => (v, s)).bind fun (v, s) =>
          match nextToken s with
          | some (',', s) => readFields n v s
          | some ('\x7d', s) => some (v, s)
          | _ => none
      | _ => none

def readStruct (v : σ) (s : Str) : Option (σ × Str) :=
  match nextToken s with
  | some ('\x7b', s) =>
    match nextToken s with
    | some ('\x7d', s) => some (v, s)
    | _ => readFields field skip (s.length + 1) v s
  | some ('n', s) => (skipNull s).map fun s => (v, s)
  | _ => none

/-- `Unmarshal` into a struct that is `v`; a NUL byte after it counts as the end. -/
def unmarshal (v : σ) (data : Str) : Option σ :=
  (readStruct field skip v data).bind fun (v, s) =>
    match nextToken s with
    | none => some v
    | some (c, _) => if c = '\x00' then some v else none

end

/-! ## Strings -/

section Strings

theorem nextToken_cons {c : Char} (hc : ¬ (c = ' ' ∨ c = '\n' ∨ c = '\t' ∨ c = '\r')) (s : Str) :
    nextToken (c :: s) = some (c, s) := by
  rw [nextToken, if_neg hc]

theorem hexVal_hex : ∀ n < 16, hexVal (hex n) = some n := by decide

theorem readU4_byte {b : Nat} (hb : b < 256) (s : Str) :
    readU4 ('0' :: '0' :: hex (b / 16) :: hex (b % 16) :: s) = some (b, s) := by
  have hzero : hexVal '0' = some 0 := by decide
  rw [readU4, hzero, hexVal_hex _ (by omega), hexVal_hex _ (by omega)]
  simp only [Option.some.injEq, Prod.mk.injEq, and_true]
  omega

theorem readEscapedChar_byte {b : Char} (hb : b.toNat < 0x80) (s : Str) :
    readEscapedChar 'u' ('0' :: '0' :: hex (b.toNat / 16) :: hex (b.toNat % 16) :: s) = some ([b], s) := by
  rw [readEscapedChar, if_pos rfl, readU4_byte (by omega), Option.bind_some]
  dsimp only
  rw [if_neg (by omega), appendRune, if_pos (by omega), Char.ofNat_toNat]

/-- What the slow path puts before what it reads later. -/
def before (x : Str) (r : Option (Str × Str)) : Option (Str × Str) := r.map fun p => (x ++ p.1, p.2)

theorem before_before (x y : Str) (r : Option (Str × Str)) : before x (before y r) = before (x ++ y) r := by
  cases r <;> simp [before]

theorem slow_escape {n : Nat} {e : Char} {s x t : Str} (h : readEscapedChar e s = some (x, t)) :
    readStringSlowPath (n + 1) ('\\' :: e :: s) = before x (readStringSlowPath n t) := by
  rw [readStringSlowPath, if_neg (by decide), if_pos rfl]
  dsimp only
  rw [h]
  rfl

theorem slow_char {n : Nat} {c : Char} (hq : c ≠ '"') (hb : c ≠ '\\') (s : Str) :
    readStringSlowPath (n + 1) (c :: s) = before [c] (readStringSlowPath n s) := by
  rw [readStringSlowPath.eq_def]
  dsimp only
  rw [if_neg hq, if_neg hb]
  rfl

theorem slow_raw {n : Nat} : ∀ (l : Str), (∀ c ∈ l, c ≠ '"' ∧ c ≠ '\\') → ∀ s,
    readStringSlowPath (n + l.length) (l ++ s) = before l (readStringSlowPath n s)
  | [], _, s => by simp [before]
  | c :: l, h, s => by
    obtain ⟨⟨hq, hb⟩, hl⟩ := List.forall_mem_cons.mp h
    rw [List.cons_append, List.length_cons, ← Nat.add_assoc, slow_char hq hb, slow_raw l hl, before_before]
    rfl

theorem slow_piece {p : Piece} (hp : ∀ l, p = .rune l → IsRune l) {n : Nat} (hn : (writePiece p).length ≤ n) (s : Str) :
    ∃ m, n - (writePiece p).length ≤ m ∧
      readStringSlowPath n (writePiece p ++ s) = before p.repaired (readStringSlowPath m s) := by
  have hescape : ∀ {e : Char} {w x : Str}, readEscapedChar e (w ++ s) = some (x, s) → ('\\' :: e :: w).length ≤ n →
      ∃ m, n - ('\\' :: e :: w).length ≤ m ∧
        readStringSlowPath n ('\\' :: e :: w ++ s) = before x (readStringSlowPath m s) := by
    intro e w x h hle
    obtain ⟨n, rfl⟩ := Nat.exists_eq_add_of_le' (Nat.le_trans (by simp) hle : 1 ≤ n)
    exact ⟨n, by simp only [List.length_cons]; omega, slow_escape h⟩
  have hraw : ∀ l : Str, (∀ c ∈ l, c ≠ '"' ∧ c ≠ '\\') → l.length ≤ n →
      ∃ m, n - l.length ≤ m ∧ readStringSlowPath n (l ++ s) = before l (readStringSlowPath m s) := by
    intro l hl hle
    refine ⟨n - l.length, Nat.le_refl _, ?_⟩
    have h := slow_raw (n := n - l.length) l hl s
    rwa [Nat.sub_add_cancel hle] at h
  cases p with
  | stray b => exact hescape (e := 'u') (w := "fffd".toList) rfl hn
  | rune l =>
    rcases Go.isRune_cases (hp l rfl) with ⟨b, rfl, hb⟩ | ⟨hne, hall⟩
    · have hw : writePiece (.rune [b]) = writeAscii b := if_pos hb
      rw [hw] at hn ⊢
      unfold writeAscii at hn ⊢
      split_ifs at hn ⊢ with hsafe hquote hnl hcr htab
      · refine hraw [b] ?_ hn
        simp only [htmlSafe, Bool.and_eq_true, bne_iff_ne, ne_eq] at hsafe
        simp [hsafe]
      · rcases hquote with rfl | rfl
        · exact hescape (w := []) rfl hn
        · exact hescape (w := []) rfl hn
      · subst hnl
        exact hescape (w := []) rfl hn
      · subst hcr
        exact hescape (w := []) rfl hn
      · subst htab
        exact hescape (w := []) rfl hn
      · exact hescape (w := ['0', '0', hex (b.toNat / 16), hex (b.toNat % 16)]) (readEscapedChar_byte hb s) hn
    · obtain ⟨b, l, rfl⟩ := List.exists_cons_of_ne_nil hne
      have hhigh := (List.forall_mem_cons.mp hall).1
      rw [writePiece, if_neg (by omega)] at hn ⊢
      split_ifs at hn ⊢ with hline hpar
      · rw [hline]
        exact hescape (w := "2028".toList) rfl hn
      · rw [hpar]
        exact hescape (w := "2029".toList) rfl hn
      · refine hraw (b :: l) (fun c hc => ?_) hn
        have := hall c hc
        constructor
        · intro heq
          subst heq
          exact absurd this (by decide)
        · intro heq
          subst heq
          exact absurd this (by decide)

/-- A string written is read by the slow path as the string repaired. -/
theorem slow_write (s t : Str) : ∀ n, (writeBody s).length < n →
    readStringSlowPath n (writeBody s ++ '"' :: t) = some (Go.repair s, t) := by
  induction s using Go.pieces_induction with
  | nil =>
    intro n hn
    cases n with
    | zero => exact absurd hn (Nat.not_lt_zero _)
    | succ n => rfl
  | rune l u hl ih =>
    intro n hn
    have hbody : writeBody (l ++ u) = writePiece (.rune l) ++ writeBody u := by
      rw [writeBody, Go.pieces_rune hl, List.flatMap_cons]
      rfl
    rw [hbody, List.length_append] at hn
    obtain ⟨m, hm, hread⟩ := slow_piece (p := .rune l) (fun l' h => by cases h; exact hl) (n := n) (by omega)
      (writeBody u ++ '"' :: t)
    rw [hbody, List.append_assoc, hread, ih m (by omega), Go.repair_rune hl]
    rfl
  | stray b u hb ih =>
    intro n hn
    have hbody : writeBody (b :: u) = writePiece (.stray b) ++ writeBody u := by
      rw [writeBody, Go.pieces_stray hb, List.flatMap_cons]
      rfl
    rw [hbody, List.length_append] at hn
    obtain ⟨m, hm, hread⟩ := slow_piece (p := .stray b) (fun l' h => by cases h) (n := n) (by omega)
      (writeBody u ++ '"' :: t)
    rw [hbody, List.append_assoc, hread, ih m (by omega), Go.repair_stray hb]
    rfl

theorem fastString_slow : ∀ {s x t : Str}, fastString s = .found x t → ∀ n, s.length < n →
    readStringSlowPath n s = some (x, t)
  | [], x, t, h, _, _ => by cases h
  | c :: s, x, t, h, n, hn => by
    obtain ⟨n, rfl⟩ := Nat.exists_eq_add_of_lt (Nat.zero_lt_of_lt hn)
    rw [Nat.zero_add] at hn ⊢
    have hs : s.length < n := Nat.lt_of_succ_lt_succ hn
    rw [fastString] at h
    split_ifs at h with hq hb hcontrol
    · cases h
      rw [hq]
      rfl
    · rw [slow_char hq hb]
      cases hf : fastString s with
      | slow => rw [hf] at h; cases h
      | control => rw [hf] at h; cases h
      | found x' t' =>
        rw [hf] at h
        cases h
        rw [fastString_slow hf n hs]
        rfl

theorem fastString_control : ∀ {s t : Str}, (∀ c ∈ s, ¬ c < ' ') → fastString (s ++ '"' :: t) ≠ .control
  | [], t, _ => by
    rw [List.nil_append, fastString, if_pos rfl]
    exact FastEnd.noConfusion
  | c :: s, t, h => by
    obtain ⟨hc, hs⟩ := List.forall_mem_cons.mp h
    have ih := fastString_control (t := t) hs
    rw [List.cons_append, fastString]
    split_ifs
    · exact FastEnd.noConfusion
    · exact FastEnd.noConfusion
    · cases hf : fastString (s ++ '"' :: t) with
      | found x u => exact FastEnd.noConfusion
      | slow => exact FastEnd.noConfusion
      | control => exact absurd hf ih

theorem hex_printable : ∀ n < 16, ¬ hex n < ' ' := by decide

theorem printable_of_le {c : Char} (h : 32 ≤ c.toNat) : ¬ c < ' ' := by
  have hle : (' ' : Char) ≤ c := h
  exact not_lt.mpr hle

theorem printable_of_all {l : Str} (h : l.all (fun c => decide (32 ≤ c.toNat)) = true) : ∀ c ∈ l, ¬ c < ' ' := by
  intro c hc
  exact printable_of_le (of_decide_eq_true (List.all_eq_true.mp h c hc))

theorem writePiece_printable {p : Piece} (hp : ∀ l, p = .rune l → IsRune l) : ∀ c ∈ writePiece p, ¬ c < ' ' := by
  cases p with
  | stray b => exact printable_of_all rfl
  | rune l =>
    rcases Go.isRune_cases (hp l rfl) with ⟨b, rfl, hb⟩ | ⟨hne, hall⟩
    · have hw : writePiece (.rune [b]) = writeAscii b := if_pos hb
      rw [hw, writeAscii]
      split_ifs with hsafe hquote hnl hcr htab
      · intro c hc
        rw [List.mem_singleton] at hc
        simp only [htmlSafe, Bool.and_eq_true, decide_eq_true_eq] at hsafe
        rw [hc]
        exact printable_of_le hsafe.1.1.1.1.1
      · rcases hquote with rfl | rfl <;> exact printable_of_all rfl
      · exact printable_of_all rfl
      · exact printable_of_all rfl
      · exact printable_of_all rfl
      · rw [List.forall_mem_append]
        refine ⟨printable_of_all rfl, ?_⟩
        simp only [List.forall_mem_cons]
        exact ⟨hex_printable _ (by omega), hex_printable _ (by omega), fun c hc => absurd hc List.not_mem_nil⟩
    · obtain ⟨b, l, rfl⟩ := List.exists_cons_of_ne_nil hne
      have hhigh := (List.forall_mem_cons.mp hall).1
      rw [writePiece, if_neg (by omega)]
      split_ifs
      · exact printable_of_all rfl
      · exact printable_of_all rfl
      · intro c hc
        have h128 := hall c hc
        exact printable_of_le (by omega)

theorem writeBody_printable (s : Str) : ∀ c ∈ writeBody s, ¬ c < ' ' := by
  intro c hc
  obtain ⟨p, hp, hcp⟩ := List.mem_flatMap.mp hc
  exact writePiece_printable (fun l h => Go.isRune_of_mem_pieces (h ▸ hp)) c hcp

theorem writeString_printable (s : Str) : ∀ c ∈ writeString s, ¬ c < ' ' := by
  rw [writeString, List.forall_mem_append, List.forall_mem_cons]
  exact ⟨⟨printable_of_le (by decide), writeBody_printable s⟩, printable_of_all rfl⟩

theorem commas_printable {ls : List Str} (h : ∀ l ∈ ls, ∀ c ∈ l, ¬ c < ' ') : ∀ c ∈ [','].intercalate ls, ¬ c < ' ' := by
  intro c hc
  rcases Go.mem_of_mem_intercalate hc with rfl | ⟨l, hl, hcl⟩
  · exact printable_of_le (by decide)
  · exact h l hl c hcl

theorem writeStrings_printable (isNil : Bool) (l : List Str) : ∀ c ∈ writeStrings isNil l, ¬ c < ' ' := by
  unfold writeStrings
  split_ifs
  · exact printable_of_all rfl
  · rw [List.forall_mem_append, List.forall_mem_cons]
    refine ⟨⟨printable_of_le (by decide), commas_printable ?_⟩, printable_of_all rfl⟩
    intro w hw
    obtain ⟨s, -, rfl⟩ := List.mem_map.mp hw
    exact writeString_printable s

theorem itoa_printable (i : Int) : ∀ c ∈ Go.itoa i, ¬ c < ' ' := by
  intro c hc hlow
  have hnat : c.toNat < 32 := hlow
  refine Go.notMem_itoa_int ?_ ?_ i hc
  · rw [Bool.eq_false_iff]
    intro hd
    have h48 : 48 ≤ c.toNat := (Char.isDigit_iff_toNat.mp hd).1
    omega
  · intro heq
    rw [heq] at hnat
    exact absurd hnat (by decide)

theorem readBody_write (s t : Str) : readBody (writeBody s ++ '"' :: t) = some (Go.repair s, t) := by
  have hslow := slow_write s t ((writeBody s ++ '"' :: t).length + 1) (by simp only [List.length_append]; omega)
  unfold readBody
  cases hf : fastString (writeBody s ++ '"' :: t) with
  | found x u => exact (fastString_slow hf _ (Nat.lt_succ_self _)).symm.trans hslow
  | slow => exact hslow
  | control => exact absurd hf (fastString_control (writeBody_printable s))

/-- A string written and read is the string repaired. -/
theorem readString_write (s t : Str) : readString (writeString s ++ t) = some (Go.repair s, t) := by
  have hquote : writeString s ++ t = '"' :: (writeBody s ++ '"' :: t) := by simp [writeString]
  rw [hquote, readString, nextToken_cons (by decide)]
  exact readBody_write s t

end Strings

/-! ## Numbers and lists -/

section Values

/-- What comes after a number: neither a digit nor a point. -/
def EndsNumber (t : Str) : Prop := ∀ c, t.head? = some c → intDigit c = none ∧ c ≠ '.'

theorem intDigit_of_isDigit {c : Char} (h : c.isDigit = true) : intDigit c = some (c.toNat - 48) := by
  simp only [Char.isDigit, Bool.and_eq_true, decide_eq_true_eq] at h
  exact if_pos h

theorem ofDigitChars_le : ∀ (l : Str) (v : Nat), v ≤ Nat.ofDigitChars 10 l v
  | [], v => by rw [Nat.ofDigitChars_nil]
  | c :: l, v => by
    rw [Nat.ofDigitChars_cons]
    exact Nat.le_trans (by omega) (ofDigitChars_le l _)

theorem readDigits_digits {t : Str} (ht : EndsNumber t) : ∀ (l : Str) (v : Nat), (∀ c ∈ l, c.isDigit = true) →
    Nat.ofDigitChars 10 l v < 2 ^ 64 → readDigits v (l ++ t) = some (Nat.ofDigitChars 10 l v, t)
  | [], v, _, _ => by
    cases t with
    | nil => rfl
    | cons c t =>
      obtain ⟨hc, hdot⟩ := ht c rfl
      rw [List.nil_append, readDigits, hc]
      exact if_neg hdot
  | c :: l, v, hl, hlt => by
    obtain ⟨hc, hl⟩ := List.forall_mem_cons.mp hl
    rw [Nat.ofDigitChars_cons] at hlt ⊢
    have hzero : '0'.toNat = 48 := rfl
    have hfits : v * 10 + (c.toNat - 48) < 2 ^ 64 := by
      have := ofDigitChars_le l (10 * v + (c.toNat - '0'.toNat))
      omega
    have hgrow : ¬ v * 10 + (c.toNat - 48) < v := by omega
    rw [List.cons_append, readDigits, intDigit_of_isDigit hc]
    dsimp only
    rw [Nat.mod_eq_of_lt hfits, if_neg hgrow, ite_self, Nat.mul_comm v 10]
    exact readDigits_digits ht l _ hl hlt

theorem toDigits_head {n : Nat} (h : 0 < n) : ∃ d l, 0 < d ∧ d < 10 ∧ Nat.toDigits 10 n = Nat.digitChar d :: l := by
  induction n using Nat.strong_induction_on with
  | _ n ih =>
    by_cases hsmall : n < 10
    · exact ⟨n, [], h, hsmall, Nat.toDigits_of_lt_base hsmall⟩
    · obtain ⟨d, l, hd, hd10, hl⟩ := ih (n / 10) (by omega) (by omega)
      refine ⟨d, l ++ [Nat.digitChar (n % 10)], hd, hd10, ?_⟩
      rw [Nat.toDigits_of_base_le (by decide) (by omega), hl, List.cons_append]

theorem digitChar_value : ∀ d < 10, intDigit (Nat.digitChar d) = some d := by decide

theorem readUint64_toDigits {n : Nat} (hn : n < 2 ^ 64) {t : Str} (ht : EndsNumber t) :
    readUint64 (Nat.toDigits 10 n ++ t) = some (n, t) := by
  rcases Nat.eq_zero_or_pos n with rfl | hpos
  · have hdot : ¬ t.head? = some '.' := fun h => (ht _ h).2 rfl
    exact if_neg hdot
  · obtain ⟨d, l, hd, hd10, hl⟩ := toDigits_head hpos
    have hall : ∀ c ∈ l, c.isDigit = true := fun c hc =>
      Nat.isDigit_of_mem_toDigits (b := 10) (n := n) (by decide) (by decide) (hl ▸ List.mem_cons_of_mem _ hc)
    have hvalue : Nat.ofDigitChars 10 l d = n := by
      have h : Nat.ofDigitChars 10 (Nat.toDigits 10 n) 0 = n := Nat.ofDigitChars_ten_toDigits
      rwa [hl, Nat.ofDigitChars_cons_digitChar_of_lt_ten hd10, Nat.mul_zero, Nat.zero_add] at h
    obtain ⟨d, rfl⟩ := Nat.exists_eq_add_of_lt hd
    have hread := readDigits_digits ht l _ hall (hvalue.symm ▸ hn)
    rw [hvalue] at hread
    rw [hl, List.cons_append, readUint64, digitChar_value _ hd10]
    exact hread

theorem digitChar_starts : ∀ d < 10, ¬ (Nat.digitChar d = ' ' ∨ Nat.digitChar d = '\n' ∨ Nat.digitChar d = '\t' ∨
    Nat.digitChar d = '\r') ∧ Nat.digitChar d ≠ 'n' ∧ Nat.digitChar d ≠ '-' := by decide

theorem readInt_of_ne {c : Char} (hc : c ≠ 'n') (hspace : ¬ (c = ' ' ∨ c = '\n' ∨ c = '\t' ∨ c = '\r')) (old : Int)
    (s : Str) : readInt old (c :: s) = readInt64 (c :: s) := by
  unfold readInt
  rw [nextToken_cons hspace]
  split
  · rename_i h
    cases h
    exact absurd rfl hc
  · rfl

theorem readInt_itoa {i : Int} (hlow : -2 ^ 63 ≤ i) (hhigh : i < 2 ^ 63) (old : Int) {t : Str} (ht : EndsNumber t) :
    readInt old (Go.itoa i ++ t) = some (i, t) := by
  cases i with
  | ofNat n =>
    have hn : n < 2 ^ 63 := by
      have h : (n : Int) < 2 ^ 63 := hhigh
      omega
    obtain ⟨d, l, hd, hl⟩ : ∃ d l, d < 10 ∧ Nat.toDigits 10 n = Nat.digitChar d :: l := by
      rcases Nat.eq_zero_or_pos n with rfl | hpos
      · exact ⟨0, [], by decide, rfl⟩
      · obtain ⟨d, l, -, hd, hl⟩ := toDigits_head hpos
        exact ⟨d, l, hd, hl⟩
    obtain ⟨hspace, hnull, hminus⟩ := digitChar_starts d hd
    have hread := readUint64_toDigits (n := n) (by omega) ht
    have htext : Go.itoa (Int.ofNat n) = Nat.digitChar d :: l := hl
    rw [hl, List.cons_append] at hread
    rw [htext, List.cons_append, readInt_of_ne hnull hspace, readInt64, nextToken_cons hspace]
    dsimp only
    rw [if_neg hminus, hread, Option.bind_some]
    exact if_pos hn
  | negSucc n =>
    have hn : n + 1 ≤ 2 ^ 63 := by omega
    have htext : Go.itoa (Int.negSucc n) = '-' :: Nat.toDigits 10 (n + 1) := rfl
    rw [htext, List.cons_append, readInt_of_ne (by decide) (by decide), readInt64, nextToken_cons (by decide)]
    dsimp only
    rw [if_pos rfl, readUint64_toDigits (by omega) ht, Option.bind_some]
    exact if_pos hn

theorem readElements_write (t : Str) : ∀ (l : List Str) (x : Str) (n : Nat), l.length < n →
    readElements n ([','].intercalate ((x :: l).map writeString) ++ ']' :: t) = some ((x :: l).map Go.repair, t)
  | _, _, 0, h => absurd h (Nat.not_lt_zero _)
  | [], x, n + 1, _ => by
    have htext : [','].intercalate ([x].map writeString) = writeString x := by simp
    rw [htext, readElements, readString_write, Option.bind_some]
    rfl
  | y :: l, x, n + 1, h => by
    have htext : [','].intercalate ((x :: y :: l).map writeString) =
        writeString x ++ ',' :: [','].intercalate ((y :: l).map writeString) := by
      simp [List.intercalate]
    have hnext : ∀ u : Str, readElements (n + 1) (writeString x ++ ',' :: u) =
        (readElements n u).map fun p => (Go.repair x :: p.1, p.2) := by
      intro u
      rw [readElements, readString_write]
      rfl
    rw [htext, List.append_assoc, List.cons_append, hnext, readElements_write t l y n (Nat.lt_of_succ_lt_succ h)]
    rfl

theorem length_le_intercalate : ∀ (l : List Str) (x : Str), l.length ≤ ([','].intercalate ((x :: l).map writeString)).length
  | [], _ => Nat.zero_le _
  | y :: l, x => by
    have ih := length_le_intercalate l y
    simp only [List.map_cons, List.intercalate_cons_cons, List.length_append, List.length_cons, List.length_nil] at ih ⊢
    omega

/-- A list of strings is read back, each string repaired. -/
theorem readStrings_write (isNil : Bool) (l : List Str) (t : Str) :
    readStrings (writeStrings isNil l ++ t) = some (l.map Go.repair, t) := by
  unfold writeStrings
  split_ifs with hnil
  · rw [hnil.2]
    rfl
  · cases l with
    | nil => rfl
    | cons x l =>
      obtain ⟨w, hw⟩ : ∃ w, [','].intercalate ((x :: l).map writeString) = '"' :: w := by
        cases l <;> exact ⟨_, rfl⟩
      have hread := readElements_write t l x
      rw [hw] at hread ⊢
      have htext : '[' :: '"' :: w ++ [']'] ++ t = '[' :: '"' :: (w ++ ']' :: t) := by simp
      have hstart : ∀ u : Str, readStrings ('[' :: '"' :: u) = readElements (u.length + 2) ('"' :: u) := fun _ => rfl
      have hlen := length_le_intercalate l x
      rw [hw, List.length_cons] at hlen
      rw [htext, hstart]
      refine hread _ ?_
      simp only [List.length_append, List.length_cons]
      omega

end Values

/-! ## Structs -/

/-- A field as it is written, and what reading it does to the struct. -/
structure Field (σ : Type) where
  name : Str
  text : Str
  set : σ → σ

def Field.write {σ : Type} (f : Field σ) : Str := '"' :: f.name ++ "\":".toList ++ f.text

def writeStruct {σ : Type} (fields : List (Field σ)) : Str := '\x7b' :: [','].intercalate (fields.map Field.write) ++ ['\x7d']

/-- A struct is written without a byte below a blank if its fields are. -/
theorem writeStruct_printable {σ : Type} {fields : List (Field σ)}
    (h : ∀ f ∈ fields, (∀ c ∈ f.name, ¬ c < ' ') ∧ ∀ c ∈ f.text, ¬ c < ' ') : ∀ c ∈ writeStruct fields, ¬ c < ' ' := by
  rw [writeStruct, List.forall_mem_append, List.forall_mem_cons]
  refine ⟨⟨printable_of_le (by decide), commas_printable ?_⟩, printable_of_all rfl⟩
  intro w hw
  obtain ⟨f, hf, rfl⟩ := List.mem_map.mp hw
  rw [Field.write, List.forall_mem_append, List.forall_mem_append, List.forall_mem_cons]
  exact ⟨⟨⟨printable_of_le (by decide), (h f hf).1⟩, printable_of_all rfl⟩, (h f hf).2⟩

section Structs
variable {σ : Type} {field : Str → Option (σ → Str → Option (σ × Str))} {skip : Str → Option Str}

def EndsValue (t : Str) : Prop := t.head? = some ',' ∨ t.head? = some '\x7d'

theorem EndsValue.number {t : Str} (h : EndsValue t) : EndsNumber t := by
  intro c hc
  rcases h with h | h <;>
    · obtain rfl : _ = c := Option.some.inj (h.symm.trans hc)
      decide

structure Field.Reads (field : Str → Option (σ → Str → Option (σ × Str))) (f : Field σ) : Prop where
  name : ∀ t, readString ('"' :: f.name ++ '"' :: t) = some (f.name, t)
  decodes : ∃ decode, field f.name = some decode ∧ ∀ v t, EndsValue t → decode v (f.text ++ t) = some (f.set v, t)

theorem readFields_one {f : Field σ} (hf : f.Reads field) (n : Nat) (v : σ) {t : Str} (ht : EndsValue t) :
    readFields field skip (n + 1) v (f.write ++ t) =
      match nextToken t with
      | some (',', s) => readFields field skip n (f.set v) s
      | some ('\x7d', s) => some (f.set v, s)
      | _ => none := by
  obtain ⟨decode, hdecode, hread⟩ := hf.decodes
  have htext : f.write ++ t = '"' :: f.name ++ '"' :: (':' :: (f.text ++ t)) := by simp [Field.write]
  rw [htext, readFields, hf.name, Option.bind_some]
  change ((match field f.name with
    | some decode => decode v (f.text ++ t)
    | none => (skip (f.text ++ t)).map fun s => (v, s)).bind _) = _
  rw [hdecode]
  change ((decode v (f.text ++ t)).bind _) = _
  rw [hread v t ht]
  rfl

theorem readFields_write (t : Str) : ∀ (fs : List (Field σ)) (f : Field σ) (n : Nat) (v : σ), fs.length < n →
    (∀ g ∈ f :: fs, g.Reads field) →
    readFields field skip n v ([','].intercalate ((f :: fs).map Field.write) ++ '\x7d' :: t) =
      some ((f :: fs).foldl (fun v g => g.set v) v, t)
  | _, _, 0, _, h, _ => absurd h (Nat.not_lt_zero _)
  | [], f, n + 1, v, _, hall => by
    have htext : [','].intercalate ([f].map Field.write) = f.write := List.intercalate_singleton
    rw [htext, readFields_one (hall f List.mem_cons_self) n v (Or.inr rfl)]
    rfl
  | g :: fs, f, n + 1, v, h, hall => by
    have htext : [','].intercalate ((f :: g :: fs).map Field.write) ++ '\x7d' :: t =
        f.write ++ ',' :: ([','].intercalate ((g :: fs).map Field.write) ++ '\x7d' :: t) := by
      simp only [List.map_cons, List.intercalate_cons_cons]
      simp
    rw [htext, readFields_one (hall f List.mem_cons_self) n v (Or.inl rfl)]
    exact readFields_write t fs g n (f.set v) (Nat.lt_of_succ_lt_succ h) fun g' hg' => hall g' (List.mem_cons_of_mem _ hg')

theorem length_le_fields : ∀ (fs : List (Field σ)) (f : Field σ),
    fs.length ≤ ([','].intercalate ((f :: fs).map Field.write)).length
  | [], _ => Nat.zero_le _
  | g :: fs, f => by
    have ih := length_le_fields fs g
    simp only [List.map_cons, List.intercalate_cons_cons, List.length_append, List.length_cons, List.length_nil] at ih ⊢
    omega

/-- A struct is read back, field by field. -/
theorem unmarshal_write {fs : List (Field σ)} (hne : fs ≠ []) (hall : ∀ g ∈ fs, g.Reads field) (v : σ) :
    unmarshal field skip v (writeStruct fs) = some (fs.foldl (fun v g => g.set v) v) := by
  obtain ⟨f, fs, rfl⟩ := List.exists_cons_of_ne_nil hne
  obtain ⟨w, hw⟩ : ∃ w, [','].intercalate ((f :: fs).map Field.write) = '"' :: w := by
    cases fs <;> exact ⟨_, rfl⟩
  have hstart : ∀ u : Str, readStruct field skip v ('\x7b' :: '"' :: u) = readFields field skip (u.length + 2) v ('"' :: u) :=
    fun _ => rfl
  have hlen := length_le_fields fs f
  have hread := @readFields_write σ field skip [] fs f (w.length + 3) v
  rw [hw] at hlen hread
  rw [List.length_cons] at hlen
  have htext : writeStruct (f :: fs) = '\x7b' :: '"' :: (w ++ ['\x7d']) := by rw [writeStruct, hw]; rfl
  have hfuel : (w ++ ['\x7d']).length + 2 = w.length + 3 := by simp
  rw [unmarshal, htext, hstart, hfuel]
  have hdone := hread (by omega) hall
  rw [List.cons_append] at hdone
  rw [hdone]
  rfl

end Structs

end GoFastdfs.Jsoniter
