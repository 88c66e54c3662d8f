/-
  GoFastdfs.Go.Md5 — MD5 (`crypto/md5`, printed in hexadecimal), so that runs on fixed
  inputs have their real keys.

  The theorems about the server take the digest as a parameter. A message is its bytes,
  a word is a number below 2^32, and a block is sixteen words in little-endian order.
-/

import GoFastdfs.Go.Text

namespace GoFastdfs.Go

/-- The additive constant and the rotation of each of the 64 operations. -/
def md5Table : List (Nat × Nat) :=
  [(0xd76aa478, 7), (0xe8c7b756, 12), (0x242070db, 17), (0xc1bdceee, 22), (0xf57c0faf, 7), (0x4787c62a, 12), (0xa8304613, 17), (0xfd469501, 22),
   (0x698098d8, 7), (0x8b44f7af, 12), (0xffff5bb1, 17), (0x895cd7be, 22), (0x6b901122, 7), (0xfd987193, 12), (0xa679438e, 17), (0x49b40821, 22),
   (0xf61e2562, 5), (0xc040b340, 9), (0x265e5a51, 14), (0xe9b6c7aa, 20), (0xd62f105d, 5), (0x02441453, 9), (0xd8a1e681, 14), (0xe7d3fbc8, 20),
   (0x21e1cde6, 5), (0xc33707d6, 9), (0xf4d50d87, 14), (0x455a14ed, 20), (0xa9e3e905, 5), (0xfcefa3f8, 9), (0x676f02d9, 14), (0x8d2a4c8a, 20),
   (0xfffa3942, 4), (0x8771f681, 11), (0x6d9d6122, 16), (0xfde5380c, 23), (0xa4beea44, 4), (0x4bdecfa9, 11), (0xf6bb4b60, 16), (0xbebfbc70, 23),
   (0x289b7ec6, 4), (0xeaa127fa, 11), (0xd4ef3085, 16), (0x04881d05, 23), (0xd9d4d039, 4), (0xe6db99e5, 11), (0x1fa27cf8, 16), (0xc4ac5665, 23),
   (0xf4292244, 6), (0x432aff97, 10), (0xab9423a7, 15), (0xfc93a039, 21), (0x655b59c3, 6), (0x8f0ccc92, 10), (0xffeff47d, 15), (0x85845dd1, 21),
   (0x6fa87e4f, 6), (0xfe2ce6e0, 10), (0xa3014314, 15), (0x4e0811a1, 21), (0xf7537e82, 6), (0xbd3af235, 10), (0x2ad7d2bb, 15), (0xeb86d391, 21)]

def rotateLeft (x n : Nat) : Nat := (x * 2 ^ n + x / 2 ^ (32 - n)) % 2 ^ 32

structure Md5 where
  a : Nat
  b : Nat
  c : Nat
  d : Nat

namespace Md5

/-- The nonlinear function of operation `i`, and the word it takes. -/
def mix (s : Md5) (i : Nat) : Nat × Nat :=
  let inv (x : Nat) := x ^^^ 0xffffffff
  if i < 16 then ((s.b &&& s.c) ||| (inv s.b &&& s.d), i)
  else if i < 32 then ((s.d &&& s.b) ||| (inv s.d &&& s.c), (5 * i + 1) % 16)
  else if i < 48 then (s.b ^^^ s.c ^^^ s.d, (3 * i + 5) % 16)
  else (s.c ^^^ (s.b ||| inv s.d), 7 * i % 16)

def operation (m : List Nat) (s : Md5) (i : Nat) (t : Nat × Nat) : Md5 :=
  ⟨s.d, (s.b + rotateLeft ((s.a + (s.mix i).1 + t.1 + m.getD (s.mix i).2 0) % 2 ^ 32) t.2) % 2 ^ 32, s.b, s.c⟩

def operations (m : List Nat) : List (Nat × Nat) → Nat → Md5 → Md5
  | [], _, s => s
  | t :: ts, i, s => operations m ts (i + 1) (s.operation m i t)

def block (s : Md5) (m : List Nat) : Md5 :=
  let r := operations m md5Table 0 s
  ⟨(s.a + r.a) % 2 ^ 32, (s.b + r.b) % 2 ^ 32, (s.c + r.c) % 2 ^ 32, (s.d + r.d) % 2 ^ 32⟩

end Md5

def littleEndian : Nat → Nat → List Nat
  | 0, _ => []
  | k + 1, n => n % 256 :: littleEndian k (n / 256)

def ofLittleEndian : List Nat → Nat
  | [] => 0
  | b :: bs => b + 256 * ofLittleEndian bs

/-- The message, a one bit, zeros up to 56 bytes past a block, and its length in bits. -/
def md5Pad (s : Str) : List Nat :=
  s.map Char.toNat ++ 0x80 :: List.replicate ((119 - s.length % 64) % 64) 0 ++ littleEndian 8 (8 * s.length)

def hexByte (n : Nat) : Str := [Nat.digitChar (n / 16), Nat.digitChar (n % 16)]

def md5 (s : Str) : Str :=
  let words := ((md5Pad s).toChunks 4).map ofLittleEndian
  let r := (words.toChunks 16).foldl Md5.block ⟨0x67452301, 0xefcdab89, 0x98badcfe, 0x10325476⟩
  [r.a, r.b, r.c, r.d].flatMap fun w => (littleEndian 4 w).flatMap hexByte

theorem md5_ne_nil (s : Str) : md5 s ≠ [] := by
  intro h
  have hlen := congrArg List.length h
  simp [md5, littleEndian, hexByte] at hlen

example : md5 "hello".toList = "5d41402abc4b2a76b9719d911017c592".toList := by decide +kernel

end GoFastdfs.Go
