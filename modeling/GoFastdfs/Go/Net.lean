/-
  GoFastdfs.Go.Net — addresses as Go's `net` package reads them, and the host of a URL.

  An `IP` is a slice of bytes: sixteen of them, four for an IPv4 network, none where the
  text is no address. An IPv4 address has its four bytes behind a fixed prefix. An octet
  has no leading zero; a group of an IPv6 address is any hexadecimal number up to `ffff`.

  The text of an IPv6 address is hexadecimal up to its first colon
  (`slash_notMem_parseIP`).
-/

import GoFastdfs.Go.Url

namespace GoFastdfs.Go

abbrev IP := List UInt8

def v4InV6Prefix : IP := List.replicate 10 0 ++ [0xff, 0xff]

namespace IP

def to4 (ip : IP) : Option IP :=
  if ip.length = 4 then some ip
  else if ip.length = 16 ∧ ip.take 12 = v4InV6Prefix then some (ip.drop 12)
  else none

def isLoopback (ip : IP) : Bool :=
  match ip.to4 with
  | some ip4 => ip4.head? == some 127
  | none => ip == List.replicate 15 0 ++ [1]

def isLinkLocalMulticast (ip : IP) : Bool :=
  match ip.to4 with
  | some ip4 => ip4.take 3 == [224, 0, 0]
  | none =>
    match ip with
    | a :: b :: _ => ip.length == 16 && a == 0xff && b &&& 0x0f == 0x02
    | _ => false

def isLinkLocalUnicast (ip : IP) : Bool :=
  match ip.to4 with
  | some ip4 => ip4.take 2 == [169, 254]
  | none =>
    match ip with
    | a :: b :: _ => ip.length == 16 && a == 0xfe && b &&& 0xc0 == 0x80
    | _ => false

end IP

/-! ## Texts -/

def parseOctet (s : Str) : Option UInt8 :=
  match parseDigits s with
  | some n => if n ≤ 0xff ∧ ¬ (1 < s.length ∧ s.head? = some '0') then some (UInt8.ofNat n) else none
  | none => none

def parseIPv4 (s : Str) : Option IP :=
  match (s.splitOn '.').mapM parseOctet with
  | some [a, b, c, d] => some (v4InV6Prefix ++ [a, b, c, d])
  | _ => none

def isHex (c : Char) : Bool := (unhex c).isSome

def hexValue (s : Str) : Nat := s.foldl (fun n c => 16 * n + (unhex c).getD 0) 0

/-- A hexadecimal number of sixteen bits, and the rest. -/
def hexGroup (s : Str) : Option (Nat × Str) :=
  if s.takeWhile isHex = [] ∨ 0xffff < hexValue (s.takeWhile isHex) then none
  else some (hexValue (s.takeWhile isHex), s.dropWhile isHex)

/-- The loop over the groups of an IPv6 address, of which so many have room: the bytes, and
    how many of them came before the `::`. -/
def groupLoop : Nat → IP → Option Nat → Str → Option (IP × Option Nat)
  | 0, ip, ellipsis, s => if s = [] then some (ip, ellipsis) else none
  | n + 1, ip, ellipsis, s =>
    match hexGroup s with
    | none => none
    | some (x, rest) =>
      if rest.head? = some '.' then
        if (ellipsis = none ∧ ip.length ≠ 12) ∨ 16 < ip.length + 4 then none
        else (parseIPv4 s).map fun ip4 => (ip ++ ip4.drop 12, ellipsis)
      else
        let ip := ip ++ [UInt8.ofNat (x / 256), UInt8.ofNat (x % 256)]
        match rest with
        | [] => some (ip, ellipsis)
        | [_] => none
        | ':' :: ':' :: rest =>
          if ellipsis.isSome then none
          else if rest = [] then some (ip, some ip.length)
          else groupLoop n ip (some ip.length) rest
        | ':' :: rest => groupLoop n ip ellipsis rest
        | _ => none

/-- Zeros in place of the `::`, which stands for one group at least. -/
def expand : IP × Option Nat → Option IP
  | (ip, ellipsis) =>
    if ip.length < 16 then ellipsis.map fun k => ip.take k ++ List.replicate (16 - ip.length) 0 ++ ip.drop k
    else if ellipsis.isSome then none
    else some ip

def parseIPv6 (s : Str) : Option IP :=
  match s with
  | ':' :: ':' :: rest => if rest = [] then some (List.replicate 16 0) else (groupLoop 8 [] (some 0) rest).bind expand
  | s => (groupLoop 8 [] none s).bind expand

/-- `net.ParseIP`; `none` is the nil slice. -/
def parseIP (s : Str) : Option IP :=
  match s.find? fun c => c == '.' || c == ':' with
  | some '.' => parseIPv4 s
  | some ':' => parseIPv6 s
  | _ => none

/-! ## Networks -/

structure IPNet where
  ip : IP
  mask : IP

def cidrMask : Nat → Nat → IP
  | _, 0 => []
  | ones, length + 1 =>
    (if 8 ≤ ones then 0xff else ~~~(UInt8.ofNat (0xff >>> ones))) :: cidrMask (ones - 8) length

def maskBytes (ip mask : IP) : IP := List.zipWith (· &&& ·) ip mask

def parseCIDR (s : Str) : Option IPNet := do
  let mask ← afterFirst '/' s
  let addr := splitHead '/' s
  let ones ← parseDigits mask
  match parseIPv4 addr with
  | some ip =>
    if 32 < ones then none
    else some ⟨maskBytes (ip.drop 12) (cidrMask ones 4), cidrMask ones 4⟩
  | none =>
    let ip ← parseIPv6 addr
    if 128 < ones then none
    else some ⟨maskBytes ip (cidrMask ones 16), cidrMask ones 16⟩

def IPNet.contains (net : IPNet) (ip : IP) : Bool :=
  let nn := (net.ip.to4).getD net.ip
  let m := if nn.length = 4 ∧ net.mask.length = 16 then net.mask.drop 12 else net.mask
  let ip := ip.to4.getD ip
  nn.length == m.length && ip.length == nn.length && maskBytes nn m == maskBytes ip m

/-! ## The host of a URL -/

def afterScheme : Str → Str
  | ':' :: '/' :: '/' :: s => s
  | _ :: s => afterScheme s
  | [] => []

/-- `URL.Hostname`: the authority without user and port, an IPv6 address without brackets. -/
def urlHost (url : Str) : Str :=
  let authority := (afterScheme url).takeWhile fun c => c != '/' && c != '?' && c != '#'
  let host := (authority.splitOn '@').getLastD []
  match host with
  | '[' :: s => splitHead ']' s
  | host => splitHead ':' host

/-! ## What is no address -/

theorem parseIPv4_bracket (s : Str) : parseIPv4 ('[' :: s) = none := by
  have hfield : ∀ x, parseOctet ('[' :: x) = none := by
    intro x
    have hdigits : parseDigits ('[' :: x) = none := by simp [parseDigits]
    simp [parseOctet, hdigits]
  unfold parseIPv4
  rw [List.splitOn_cons_eq_if_modifyHead, if_neg (by decide)]
  rcases hs : s.splitOn '.' with _ | ⟨x, l⟩
  · exact absurd hs (List.splitOn_ne_nil _ _)
  · simp [hfield]

theorem parseIP_bracket {s : Str} (h : ':' ∉ s) : parseIP ('[' :: s) = none := by
  unfold parseIP
  split
  · exact parseIPv4_bracket s
  · rename_i hfind
    have hmem := List.mem_of_find?_eq_some hfind
    rcases List.mem_cons.mp hmem with h' | h'
    · cases h'
    · exact absurd h' h
  · rfl

theorem exists_mem_splitOn {c x : Char} (hne : x ≠ c) : ∀ {s : Str}, x ∈ s → ∃ e ∈ s.splitOn c, x ∈ e
  | y :: s, h => by
    rw [List.splitOn_cons_eq_if_modifyHead]
    rcases hs : s.splitOn c with _ | ⟨e, l⟩
    · exact absurd hs (List.splitOn_ne_nil c s)
    by_cases hy : y = c
    · obtain ⟨e', he', hx⟩ := exists_mem_splitOn hne ((List.mem_cons.mp h).resolve_left (hy ▸ hne))
      rw [if_pos (by simpa using hy), ← hs]
      exact ⟨e', List.mem_cons_of_mem _ he', hx⟩
    · rw [if_neg (by simpa using hy), List.modifyHead_cons]
      rcases List.mem_cons.mp h with rfl | h
      · exact ⟨x :: e, List.mem_cons_self, List.mem_cons_self⟩
      · obtain ⟨e', he', hx⟩ := exists_mem_splitOn hne h
        rw [hs] at he'
        rcases List.mem_cons.mp he' with rfl | he'
        · exact ⟨y :: e', List.mem_cons_self, List.mem_cons_of_mem _ hx⟩
        · exact ⟨e', List.mem_cons_of_mem _ he', hx⟩

theorem mapM_parseOctet_none {x : Str} (hx : parseOctet x = none) : ∀ {l : List Str}, x ∈ l → l.mapM parseOctet = none
  | y :: l, h => by
    rw [List.mapM_cons]
    cases hy : parseOctet y with
    | none => rfl
    | some n =>
      have hl : x ∈ l := by
        rcases List.mem_cons.mp h with rfl | h
        · rw [hx] at hy
          cases hy
        · exact h
      rw [mapM_parseOctet_none hx hl]
      rfl

theorem slash_notMem_parseIPv4 {s : Str} {ip : IP} (h : parseIPv4 s = some ip) : '/' ∉ s := by
  intro hmem
  obtain ⟨x, hx, hslash⟩ := exists_mem_splitOn (c := '.') (by decide) hmem
  have hnone : parseOctet x = none := by
    have hdigits : parseDigits x = none := by
      rw [parseDigits, if_neg]
      intro hp
      obtain ⟨_, hall⟩ := hp
      exact absurd (List.all_eq_true.mp hall '/' hslash) (by decide)
    rw [parseOctet, hdigits]
  rw [parseIPv4, mapM_parseOctet_none hnone hx] at h
  cases h

theorem slash_notMem_takeWhile (s : Str) : '/' ∉ s.takeWhile isHex := by
  intro h
  exact absurd (List.mem_takeWhile_imp h) (by decide)

theorem slash_notMem_groupLoop {n : Nat} {s : Str} {r : IP × Option Nat} (h : groupLoop (n + 1) [] none s = some r) :
    '/' ∉ splitHead ':' s := by
  have hcut : s.takeWhile isHex ++ s.dropWhile isHex = s := List.takeWhile_append_dropWhile
  have hhex : ':' ∉ s.takeWhile isHex := fun hm => absurd (List.mem_takeWhile_imp hm) (by decide)
  rw [groupLoop] at h
  split at h
  · cases h
  · rename_i x rest hgroup
    have hrest : rest = s.dropWhile isHex := by
      unfold hexGroup at hgroup
      split at hgroup
      · cases hgroup
      · cases hgroup
        rfl
    split at h
    · rw [if_pos (Or.inl ⟨rfl, by decide⟩)] at h
      cases h
    · rw [← hcut, ← hrest]
      have hcolon : ∀ t, '/' ∉ splitHead ':' (s.takeWhile isHex ++ ':' :: t) := by
        intro t
        rw [splitHead_append hhex]
        exact slash_notMem_takeWhile s
      split at h
      · rw [List.append_nil]
        exact fun hm => slash_notMem_takeWhile s (mem_of_mem_splitHead hm)
      · cases h
      · exact hcolon _
      · exact hcolon _
      · cases h

/-- An address has no `/` up to its first colon. -/
theorem slash_notMem_parseIP {s : Str} {ip : IP} (h : parseIP s = some ip) : '/' ∉ splitHead ':' s := by
  unfold parseIP at h
  split at h
  · exact fun hmem => slash_notMem_parseIPv4 h (mem_of_mem_splitHead hmem)
  · unfold parseIPv6 at h
    split at h
    · simp [splitHead, List.splitOn_cons_eq_if_modifyHead]
    · obtain ⟨r, hr, _⟩ := Option.bind_eq_some_iff.mp h
      exact slash_notMem_groupLoop hr
  · cases h

/-! ## Lengths -/

theorem parseIPv4_length {s : Str} {ip : IP} (h : parseIPv4 s = some ip) :
    ∃ a b c d, ip = v4InV6Prefix ++ [a, b, c, d] := by
  unfold parseIPv4 at h
  split at h
  · exact ⟨_, _, _, _, (Option.some.inj h).symm⟩
  · cases h

/-- A text without a colon is no address of IPv6. -/
theorem parseIP_to4 {s : Str} {ip : IP} (h : parseIP s = some ip) (hcolon : ':' ∉ s) : ip.to4.isSome = true := by
  unfold parseIP at h
  split at h
  · obtain ⟨a, b, c, d, rfl⟩ := parseIPv4_length h
    rfl
  · rename_i hfind
    exact absurd (List.mem_of_find?_eq_some hfind) hcolon
  · cases h

theorem expand_length {r : IP × Option Nat} {ip : IP} (h : expand r = some ip) : 16 ≤ ip.length := by
  obtain ⟨bytes, ellipsis⟩ := r
  rw [expand] at h
  split at h
  · obtain ⟨k, _, rfl⟩ := Option.map_eq_some_iff.mp h
    simp only [List.length_append, List.length_take, List.length_replicate, List.length_drop]
    omega
  split at h
  · cases h
  · obtain rfl := Option.some.inj h
    omega

theorem parseIPv6_length {s : Str} {ip : IP} (h : parseIPv6 s = some ip) : 16 ≤ ip.length := by
  unfold parseIPv6 at h
  split at h
  · split at h
    · obtain rfl := Option.some.inj h
      simp
    · obtain ⟨r, _, hr⟩ := Option.bind_eq_some_iff.mp h
      exact expand_length hr
  · obtain ⟨r, _, hr⟩ := Option.bind_eq_some_iff.mp h
    exact expand_length hr

theorem cidrMask_length : ∀ ones n : Nat, (cidrMask ones n).length = n
  | _, 0 => rfl
  | ones, n + 1 => by rw [cidrMask, List.length_cons, cidrMask_length]

theorem contains_nil {s : Str} {net : IPNet} (h : parseCIDR s = some net) : net.contains [] = false := by
  have hlength : net.ip.length = 4 ∨ net.ip.length = 16 := by
    unfold parseCIDR at h
    obtain ⟨mask, _, h⟩ := Option.bind_eq_some_iff.mp h
    obtain ⟨ones, _, h⟩ := Option.bind_eq_some_iff.mp h
    split at h
    · rename_i ip hip
      obtain ⟨a, b, c, d, rfl⟩ := parseIPv4_length hip
      split at h
      · cases h
      · obtain rfl := Option.some.inj h
        left
        simp [maskBytes, cidrMask_length, v4InV6Prefix]
    · obtain ⟨ip, hip, h⟩ := Option.bind_eq_some_iff.mp h
      have := parseIPv6_length hip
      split at h
      · cases h
      · obtain rfl := Option.some.inj h
        right
        simp only [maskBytes, List.length_zipWith, cidrMask_length]
        omega
  have hnn : ((net.ip.to4).getD net.ip).length ≠ 0 := by
    unfold IP.to4
    split
    · simp only [Option.getD_some]
      omega
    split
    · simp only [Option.getD_some, List.length_drop]
      omega
    · simp only [Option.getD_none]
      omega
  have hnil : (IP.to4 []).getD [] = [] := rfl
  unfold IPNet.contains
  simp only [hnil, List.length_nil]
  have : (0 == ((net.ip.to4).getD net.ip).length) = false := by
    rw [beq_eq_false_iff_ne]
    exact hnn.symm
  rw [this]
  simp

end GoFastdfs.Go
