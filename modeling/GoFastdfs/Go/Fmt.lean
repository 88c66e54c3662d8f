/-
  GoFastdfs.Go.Fmt — `fmt.Sprintf` for operands that are strings and ints.

  `printf` is the loop of `doPrintf`: text up to a `%`, then a directive with its flags,
  operand index, width, precision and verb. What a directive prints is given verb by verb, with
  the quoting of `strconv`. A directive that is wrong prints what is wrong with it, and the loop
  goes on; operands that are left over are printed at the end, unless some were indexed.

  Proved: a format whose text has no `%` prints the text and its operands (`sprintf_str`,
  `sprintf_int_str`, `sprintf_str_str`).
-/

import GoFastdfs.Go.Unicode

namespace GoFastdfs.Go

inductive Arg where
  | str (s : Str)
  | int (n : Int)
  deriving DecidableEq, Repr

def Piece.bytes : Piece → Str
  | .rune l => l
  | .stray b => [b]

namespace Fmt

structure Flags where
  wid : Option Nat := none
  prec : Option Nat := none
  minus : Bool := false
  plus : Bool := false
  sharp : Bool := false
  space : Bool := false
  zero : Bool := false
  sharpV : Bool := false

def runeCount (s : Str) : Nat := (pieces s).length

def padding (f : Flags) (n : Nat) : Str := List.replicate n (if f.zero then '0' else ' ')

def pad (f : Flags) (s : Str) : Str :=
  let fill := padding f (f.wid.getD 0 - runeCount s)
  if f.minus then s ++ fill else fill ++ s

def truncate (f : Flags) (s : Str) : Str :=
  match f.prec with
  | none => s
  | some n => ((pieces s).take n).flatMap Piece.bytes

def fmtS (f : Flags) (s : Str) : Str := pad f (truncate f s)

/-! ## Numbers -/

def digits (upper : Bool) (base n : Nat) : Str :=
  if upper then (Nat.toDigits base n).map Char.toUpper else Nat.toDigits base n

def zeros (n : Nat) (s : Str) : Str := List.replicate (n - s.length) '0' ++ s

/-- What the flag `#` puts before a number. -/
def basePrefix (base : Nat) (upper : Bool) (s : Str) : Str :=
  match base with
  | 2 => "0b".toList
  | 8 => if s.head? = some '0' then [] else ['0']
  | 16 => if upper then "0X".toList else "0x".toList
  | _ => []

def fmtInteger (f : Flags) (n : Int) (base : Nat) (upper : Bool) (octal : Bool) : Str :=
  if f.prec = some 0 ∧ n = 0 then padding { f with zero := false } (f.wid.getD 0)
  else
    let signed : Bool := n < 0 || f.plus || f.space
    let prec := match f.prec with
      | some p => p
      | none => if f.zero then f.wid.getD 0 - (if signed then 1 else 0) else 0
    let s := zeros prec (digits upper base n.natAbs)
    let s := (if f.sharp then basePrefix base upper s else []) ++ s
    let s := (if octal then "0o".toList else []) ++ s
    pad { f with zero := false } ((if n < 0 then ['-'] else if f.plus then ['+'] else if f.space then [' '] else []) ++ s)

/-- An int as the `uint64` that the verbs for characters take it for. -/
def unsigned (n : Int) : Nat := (n % 2 ^ 64).toNat

def fmtUnicode (f : Flags) (n : Nat) : Str :=
  let char := if f.sharp ∧ n ≤ 0x10FFFF ∧ isPrint n then " '".toList ++ encodeRune n ++ "'".toList else []
  pad { f with zero := false } ("U+".toList ++ zeros (max 4 (f.prec.getD 4)) (digits true 16 n) ++ char)

/-! ## Quoting -/

def escapedRune (quote : Char) (ascii : Bool) (r : Nat) : Str :=
  if r = quote.toNat ∨ r = '\\'.toNat then ['\\', Char.ofNat r]
  else if isPrint r ∧ (ascii = true → r < 0x80) then encodeRune r
  else if r = 7 then "\\a".toList
  else if r = 8 then "\\b".toList
  else if r = 9 then "\\t".toList
  else if r = 10 then "\\n".toList
  else if r = 11 then "\\v".toList
  else if r = 12 then "\\f".toList
  else if r = 13 then "\\r".toList
  else if r < 32 then "\\x".toList ++ zeros 2 (digits false 16 r)
  else if r < 0x10000 then "\\u".toList ++ zeros 4 (digits false 16 r)
  else "\\U".toList ++ zeros 8 (digits false 16 r)

def quote (ascii : Bool) (s : Str) : Str :=
  '"' :: ((pieces s).flatMap fun
    | .rune l => escapedRune '"' ascii (runeValue l)
    | .stray b => "\\x".toList ++ zeros 2 (digits false 16 b.toNat)) ++ ['"']

def quoteRune (ascii : Bool) (r : Nat) : Str :=
  "'".toList ++ escapedRune '\x27' ascii (if 0xD800 ≤ r ∧ r ≤ 0xDFFF then 0xFFFD else r) ++ "'".toList

def canBackquote (s : Str) : Bool :=
  (pieces s).all fun
    | .rune l => let r := runeValue l
      r != 0xFEFF && (32 ≤ r || r = 9) && r != 0x60 && r != 0x7F
    | .stray _ => false

def fmtQ (f : Flags) (s : Str) : Str :=
  let s := truncate f s
  if f.sharp ∧ canBackquote s then pad f ('\x60' :: s ++ ['\x60']) else pad f (quote f.plus s)

def fmtSx (f : Flags) (s : Str) (upper : Bool) : Str :=
  let bytes := match f.prec with
    | some p => s.take p
    | none => s
  if bytes = [] then padding f (f.wid.getD 0)
  else
    let ox := if f.sharp then (if upper then "0X".toList else "0x".toList) else []
    let sep := if f.space then ' ' :: ox else []
    pad f (ox ++ sep.intercalate (bytes.map fun b => zeros 2 (digits upper 16 b.toNat)))

def runeOf (n : Nat) : Nat := if 0x10FFFF < n then 0xFFFD else n

/-! ## Verbs -/

def typeName : Arg → Str
  | .str _ => "string".toList
  | .int _ => "int".toList

def printV (f : Flags) : Arg → Str
  | .str s => if f.sharpV then fmtQ f s else fmtS f s
  | .int n => fmtInteger f n 10 false false

def badVerb (f : Flags) (arg : Arg) (verb : Str) : Str :=
  "%!".toList ++ verb ++ '(' :: (typeName arg ++ '=' :: printV f arg) ++ [')']

def printArg (f : Flags) (arg : Arg) (verb : Str) : Str :=
  match arg, verb with
  | arg, ['T'] => fmtS f (typeName arg)
  | arg, ['v'] => printV { f with sharpV := f.sharp, sharp := false, plus := false } arg
  | .str s, ['s'] => fmtS f s
  | .str s, ['x'] => fmtSx f s false
  | .str s, ['X'] => fmtSx f s true
  | .str s, ['q'] => fmtQ f s
  | .int n, ['d'] => fmtInteger f n 10 false false
  | .int n, ['b'] => fmtInteger f n 2 false false
  | .int n, ['o'] => fmtInteger f n 8 false false
  | .int n, ['O'] => fmtInteger f n 8 false true
  | .int n, ['x'] => fmtInteger f n 16 false false
  | .int n, ['X'] => fmtInteger f n 16 true false
  | .int n, ['c'] => pad f (encodeRune (runeOf (unsigned n)))
  | .int n, ['q'] => pad f (quoteRune f.plus (runeOf (unsigned n)))
  | .int n, ['U'] => fmtUnicode f (unsigned n)
  | arg, verb => badVerb f arg verb

/-! ## Directives -/

/-- The loop's variables: what is printed, the operand whose turn it is, whether the index given
    for it is good, and whether an index was ever given. -/
structure Printing where
  out : Str := []
  argNum : Nat := 0
  goodArgNum : Bool := true
  reordered : Bool := false

def Printing.write (p : Printing) (s : Str) : Printing := { p with out := p.out ++ s }

def readFlags (f : Flags) : Str → Flags × Str
  | '#' :: s => readFlags { f with sharp := true } s
  | '0' :: s => readFlags { f with zero := !f.minus } s
  | '+' :: s => readFlags { f with plus := true } s
  | '-' :: s => readFlags { f with minus := true, zero := false } s
  | ' ' :: s => readFlags { f with space := true } s
  | s => (f, s)

/-- `parsenum`: the number if there is one, and the rest; of a number that is too large
    nothing is left. -/
def parsenum (n : Nat) (isnum : Bool) : Str → Option Nat × Str
  | [] => (if isnum then some n else none, [])
  | c :: s =>
    if c.isDigit then (if 1000000 < n then (none, []) else parsenum (n * 10 + (c.toNat - 48)) true s)
    else (if isnum then some n else none, c :: s)

/-- `argNumber`: an operand index in brackets. It tells whether one was found. -/
def argNumber (args : List Arg) (p : Printing) : Str → Printing × Str × Bool
  | '[' :: s =>
    let p := { p with reordered := true }
    if s.length < 2 ∨ ']' ∉ s then ({ p with goodArgNum := false }, s, false)
    else
      let rest := (s.dropWhile (· ≠ ']')).drop 1
      match parsenum 0 false (s.takeWhile (· ≠ ']')) with
      | (some n, []) =>
        if 1 ≤ n ∧ n ≤ args.length then ({ p with argNum := n - 1 }, rest, true)
        else ({ p with goodArgNum := false }, rest, true)
      | _ => ({ p with goodArgNum := false }, rest, false)
  | s => (p, s, false)

def intFromArg (args : List Arg) (p : Printing) : Option Int × Printing :=
  match args[p.argNum]? with
  | none => (none, p)
  | some (.int n) => (if n.natAbs ≤ 1000000 then some n else none, { p with argNum := p.argNum + 1 })
  | some (.str _) => (none, { p with argNum := p.argNum + 1 })

def readWidth (args : List Arg) (p : Printing) (f : Flags) (afterIndex : Bool) : Str → Printing × Flags × Str × Bool
  | '*' :: s =>
    match intFromArg args p with
    | (none, p) => (p.write "%!(BADWIDTH)".toList, f, s, false)
    | (some n, p) =>
      (p, if n < 0 then { f with wid := n.natAbs, minus := true, zero := false } else { f with wid := n.natAbs }, s, false)
  | s =>
    let r := parsenum 0 false s
    (if afterIndex ∧ r.1.isSome then { p with goodArgNum := false } else p, { f with wid := r.1 }, r.2, afterIndex)

def readPrecision (args : List Arg) (p : Printing) (f : Flags) (afterIndex : Bool) : Str → Printing × Flags × Str × Bool
  | '.' :: s =>
    let p := if afterIndex then { p with goodArgNum := false } else p
    match argNumber args p s with
    | (p, '*' :: s, _) =>
      match intFromArg args p with
      | (some n, p) => if n < 0 then (p.write "%!(BADPREC)".toList, f, s, false) else (p, { f with prec := n.natAbs }, s, false)
      | (none, p) => (p.write "%!(BADPREC)".toList, f, s, false)
    | (p, s, afterIndex) =>
      let r := parsenum 0 false s
      (p, { f with prec := r.1.getD 0 }, r.2, afterIndex)
  | s => (p, f, s, afterIndex)

/-- The bytes of the verb, one that is no character as U+FFFD, and the rest. -/
def readVerb (s : Str) : Option (Str × Str) :=
  match s, runeSize s with
  | [], _ => none
  | s, some k => some (s.take k, s.drop k)
  | _ :: s, none => some (runeError, s)

/-- What stands behind a `%`; no rest if the format ends without a verb. The path that
    `doPrintf` has for a plain verb gives the same. -/
def directive (args : List Arg) (p : Printing) (s : Str) : Printing × Option Str :=
  let (f, s) := readFlags {} s
  let (p, s, afterIndex) := argNumber args p s
  let (p, f, s, afterIndex) := readWidth args p f afterIndex s
  let (p, f, s, afterIndex) := readPrecision args p f afterIndex s
  let (p, s) := if afterIndex then (p, s) else let r := argNumber args p s; (r.1, r.2.1)
  match readVerb s with
  | none => (p.write "%!(NOVERB)".toList, none)
  | some (verb, s) =>
    if verb = ['%'] then (p.write ['%'], some s)
    else if p.goodArgNum = false then (p.write ("%!".toList ++ verb ++ "(BADINDEX)".toList), some s)
    else
      match args[p.argNum]? with
      | none => (p.write ("%!".toList ++ verb ++ "(MISSING)".toList), some s)
      | some arg => ({ p.write (printArg f arg verb) with argNum := p.argNum + 1 }, some s)

def printf (args : List Arg) : Nat → Printing → Str → Printing
  | 0, p, _ => p
  | n + 1, p, s =>
    let p := { p.write (s.takeWhile (· ≠ '%')) with goodArgNum := true }
    match s.dropWhile (· ≠ '%') with
    | [] => p
    | _ :: s =>
      match directive args p s with
      | (p, none) => p
      | (p, some s) => printf args n p s

def extra (args : List Arg) : Str :=
  "%!(EXTRA ".toList ++ ", ".toList.intercalate (args.map fun a => typeName a ++ '=' :: printV {} a) ++ [')']

end Fmt

/-- `fmt.Sprintf`; every turn of the loop but the last has a `%`. -/
def sprintf (format : Str) (args : List Arg) : Str :=
  let p := Fmt.printf args (format.length + 1) {} format
  if p.reordered = false ∧ p.argNum < args.length then p.out ++ Fmt.extra (args.drop p.argNum) else p.out

namespace Fmt

/-- Text without `%` prints as it is. -/
theorem printf_text {s : Str} (h : '%' ∉ s) (args : List Arg) (n : Nat) (p : Printing) (rest : Str) :
    printf args (n + 1) p (s ++ '%' :: rest) =
      match directive args { p.write s with goodArgNum := true } rest with
      | (p, none) => p
      | (p, some s) => printf args n p s := by
  have hall : ∀ x ∈ s, decide (x ≠ '%') = true := fun x hx => by simpa using fun e : x = '%' => h (e ▸ hx)
  rw [printf, List.takeWhile_append_of_pos hall, List.dropWhile_append_of_pos hall]
  simp

theorem pad_of_wid {f : Flags} (h : f.wid = none) (s : Str) : pad f s = s := by
  simp [pad, padding, h]

theorem printArg_str (x : Str) : printArg {} (.str x) ['s'] = x := by
  simp [printArg, fmtS, truncate, pad_of_wid]

theorem printArg_int (n : Int) : printArg {} (.int n) ['d'] = itoa n := by
  have hd : printArg {} (.int n) ['d'] = (if n < 0 then ['-'] else []) ++ Nat.toDigits 10 n.natAbs := by
    simp [printArg, fmtInteger, pad_of_wid, zeros, digits]
  rw [hd]
  cases n with
  | ofNat k => simp [itoa]
  | negSucc k => simp [itoa, Int.negSucc_lt_zero]

theorem directive_verb {args : List Arg} {p : Printing} {arg : Arg} {v : Char} (hv : v = 's' ∨ v = 'd')
    (hgood : p.goodArgNum = true) (harg : args[p.argNum]? = some arg) (rest : Str) :
    directive args p (v :: rest) = ({ p.write (printArg {} arg [v]) with argNum := p.argNum + 1 }, some rest) := by
  have hverb : readVerb (v :: rest) = some ([v], rest) := by
    have hsize : runeSize (v :: rest) = some 1 := runeSize_ascii (by rcases hv with rfl | rfl <;> decide) rest
    simp [readVerb, hsize]
  rcases hv with rfl | rfl <;>
    simp [directive, readFlags, argNumber, readWidth, parsenum, readPrecision, hverb, hgood, harg]

/-- One turn of the loop over text and a verb. -/
theorem printf_verb {s : Str} (h : '%' ∉ s) {args : List Arg} (n : Nat) {p : Printing} {arg : Arg} {v : Char}
    (hv : v = 's' ∨ v = 'd') (harg : args[p.argNum]? = some arg) (rest : Str) :
    printf args (n + 1) p (s ++ '%' :: v :: rest) =
      printf args n { p with out := p.out ++ s ++ printArg {} arg [v], argNum := p.argNum + 1, goodArgNum := true } rest := by
  have hdirective := directive_verb (p := { p.write s with goodArgNum := true }) hv rfl harg rest
  rw [printf_text h, hdirective]
  rfl

theorem printf_nil (args : List Arg) (n : Nat) (p : Printing) : printf args (n + 1) p [] = { p with goodArgNum := true } := by
  simp [printf, Printing.write]

end Fmt

open Fmt

theorem sprintf_str {s : Str} (h : '%' ∉ s) (x : Str) : sprintf (s ++ "/%s".toList) [.str x] = s ++ '/' :: x := by
  have hs : '%' ∉ s ++ ['/'] := by simp [h]
  have hformat : s ++ "/%s".toList = (s ++ ['/']) ++ '%' :: 's' :: [] := by simp
  have hlen : (s ++ "/%s".toList).length + 1 = s.length + 2 + 1 + 1 := by simp
  rw [sprintf, hlen, hformat, printf_verb hs _ (Or.inl rfl) rfl, printf_nil, printArg_str]
  simp

theorem sprintf_int_str {s : Str} (h : '%' ∉ s) (n : Int) (x : Str) :
    sprintf (s ++ "/%d_%s".toList) [.int n, .str x] = s ++ '/' :: (itoa n ++ '_' :: x) := by
  have hs : '%' ∉ s ++ ['/'] := by simp [h]
  have hformat : s ++ "/%d_%s".toList = (s ++ ['/']) ++ '%' :: 'd' :: (['_'] ++ '%' :: 's' :: []) := by simp
  have hlen : (s ++ "/%d_%s".toList).length + 1 = s.length + 4 + 1 + 1 + 1 := by simp
  rw [sprintf, hlen, hformat, printf_verb hs _ (Or.inr rfl) rfl, printf_verb (by decide) _ (Or.inl rfl) rfl, printf_nil,
    printArg_int, printArg_str]
  simp

theorem sprintf_str_str {s : Str} (h : '%' ∉ s) (x y : Str) :
    sprintf (s ++ "/%s/%s".toList) [.str x, .str y] = s ++ '/' :: (x ++ '/' :: y) := by
  have hs : '%' ∉ s ++ ['/'] := by simp [h]
  have hformat : s ++ "/%s/%s".toList = (s ++ ['/']) ++ '%' :: 's' :: (['/'] ++ '%' :: 's' :: []) := by simp
  have hlen : (s ++ "/%s/%s".toList).length + 1 = s.length + 4 + 1 + 1 + 1 := by simp
  rw [sprintf, hlen, hformat, printf_verb hs _ (Or.inl rfl) rfl, printf_verb (by decide) _ (Or.inl rfl) rfl, printf_nil,
    printArg_str, printArg_str]
  simp

/-- A folder that takes the name for its own directive leaves none for the file. -/
example : sprintf "files/100%d/%s".toList [.str "a.txt".toList] = "files/100%!d(string=a.txt)/%!s(MISSING)".toList := by
  decide +kernel

end GoFastdfs.Go
