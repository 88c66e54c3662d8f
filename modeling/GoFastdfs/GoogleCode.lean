/-
  GoFastdfs.GoogleCode — codes that change every thirty seconds (`http_google.go` and the
  package `googleAuthenticator`).

  The code of a secret in a slice of thirty seconds is cut out of the HMAC-SHA1 of the slice's
  number under the secret's bytes. A code is checked against the slices from `discrepancy` before
  the clock's to as many after; the first slice without a code ends the check. The MAC and the
  upper case of a string are parameters, with what is used of them (`GAuth`); base32 is written out.

  Proved: the check passes exactly if all its slices are from 1970 on and one of them has the code
  (`verifyCode_iff`), so a scene's downloads open exactly for the codes of these slices
  (`downloads_open_iff`); and a code that the server shows for a secret that it gave out opens them
  at any time within the discrepancy (`shown_code_opens`).
-/

import GoFastdfs.SceneCode

namespace GoFastdfs

open Go (Str)

/-! ## Base32 -/

def base32Value (c : Char) : Option Nat :=
  if 'A' ≤ c ∧ c ≤ 'Z' then some (c.toNat - 65)
  else if '2' ≤ c ∧ c ≤ '7' then some (c.toNat - 24)
  else none

def quantumBytes (ds : List Nat) : Str :=
  let v := (ds ++ List.replicate (8 - ds.length) 0).foldl (fun v d => v * 32 + d) 0
  ((List.range 5).map fun i => Char.ofNat (v / 256 ^ (4 - i) % 256)).take (ds.length * 5 / 8)

/-- The next digits, `n` of them still to come: whether padding ended them, and the text after. -/
def readQuantum : Nat → Str → Option (List Nat × Bool × Str)
  | 0, src => some ([], false, src)
  | _ + 1, [] => none
  | n + 1, c :: src =>
    if c = '=' ∧ n ≤ 5 ∧ src.length < 8 then
      if src.length < n ∨ ¬ (src.take n).all (· == '=') = true ∨ n ∈ [6, 4, 1] then none else some ([], true, src)
    else (base32Value c).bind fun d => (readQuantum n src).map fun (ds, stop, src) => (d :: ds, stop, src)

def base32Loop : Nat → Str → Option Str
  | _, [] => some []
  | 0, _ => none
  | n + 1, src => (readQuantum 8 src).bind fun (ds, stop, src) =>
      if stop = true then some (quantumBytes ds) else (base32Loop n src).map (quantumBytes ds ++ ·)

def base32Decode (s : Str) : Option Str :=
  let src := s.filter fun c => c != '\r' && c != '\n'
  base32Loop src.length src

/-! ## Codes -/

/-- What is used of other packages: `HmacSha1`, which gives 20 bytes, and `strings.ToUpper`. -/
structure GAuth where
  hmacSha1 : Str → Str → Str
  toUpper : Str → Str
  length_hmacSha1 : ∀ key data, (hmacSha1 key data).length = 20
  toUpper_ascii : ∀ s, (∀ c ∈ s, c.toNat < 128 ∧ c.isLower = false) → toUpper s = s

/-- `hex.DecodeString(fmt.Sprintf("%016x", timeSlice))`: a sign is no hex digit. -/
def sliceBytes (timeSlice : Int) : Option Str :=
  if timeSlice < 0 then none else some ((List.range 8).map fun i => Char.ofNat (timeSlice.toNat / 256 ^ (7 - i) % 256))

namespace GAuth

variable (L : GAuth)

def getCode (secret : Str) (timeSlice : Int) : Option Str :=
  (base32Decode (L.toUpper secret)).bind fun secretKey =>
    (sliceBytes timeSlice).map fun tim =>
      let hm := L.hmacSha1 secretKey tim
      let offset := (hm.getLastD '\x00').toNat % 16
      let value := ((hm.drop offset).take 4).foldl (fun v b => v * 256 + b.toNat % 256) 0
      Go.pad 6 (value % 2 ^ 31 % 10 ^ 6)

def verifyLoop (secret code : Str) : List Int → Bool
  | [] => false
  | timeSlice :: rest =>
    match L.getCode secret timeSlice with
    | none => false
    | some calculatedCode => if calculatedCode = code then true else verifyLoop secret code rest

def verifyCode (now : Int) (secret code : Str) (discrepancy : Int) : Bool :=
  L.verifyLoop secret code ((List.range (2 * discrepancy + 1).toNat).map fun n : Nat => now.tdiv 30 - discrepancy + n)

end GAuth

inductive GoogleEnd where
  | notPermitted
  | failed
  | ok (data : Str)
  deriving DecidableEq

def genGoogleCode (L : GAuth) (isPeer : Bool) (secret : Str) (now : Int) : GoogleEnd :=
  if isPeer = false then .notPermitted
  else
    match L.getCode secret (now.tdiv 30) with
    | some code => .ok code
    | none => .failed

def seeds : Str := "ABCDEFGHIJKLMNOPQRSTUVWXYZ234567".toList

def seedAt (i : Fin 32) : Char := seeds.getD i.val 'A'

def getSeed (draws : List (Fin 32)) : Str := draws.map seedAt

def genGoogleSecret (isPeer : Bool) (draws : List (Fin 32)) : GoogleEnd :=
  if isPeer = false then .notPermitted else .ok (getSeed (draws.take 16))

/-! ## The window -/

section
variable {L : GAuth}

theorem getCode_isSome {secret : Str} {timeSlice : Int} :
    (L.getCode secret timeSlice).isSome = true ↔ (base32Decode (L.toUpper secret)).isSome = true ∧ 0 ≤ timeSlice := by
  unfold GAuth.getCode sliceBytes
  cases base32Decode (L.toUpper secret) with
  | none => simp
  | some key =>
    by_cases h : timeSlice < 0
    · simp [h]
    · simp [h, Int.not_lt.mp h]

/-- A secret without a code in one slice from 1970 on has none. -/
theorem base32_none {secret : Str} {timeSlice : Int} (h : 0 ≤ timeSlice) (hcode : L.getCode secret timeSlice = none) :
    ∀ x, L.getCode secret x = none := by
  have hnone : base32Decode (L.toUpper secret) = none := by
    cases hkey : base32Decode (L.toUpper secret) with
    | none => rfl
    | some key =>
      have hsome := (@getCode_isSome L secret timeSlice).mpr ⟨by rw [hkey]; rfl, h⟩
      rw [hcode] at hsome
      cases hsome
  intro x
  rw [GAuth.getCode, hnone, Option.bind_none]

theorem verifyLoop_iff {secret code : Str} : ∀ {l : List Int}, (∀ x ∈ l, 0 ≤ x) →
    (L.verifyLoop secret code l = true ↔ ∃ x ∈ l, L.getCode secret x = some code)
  | [], _ => by simp [GAuth.verifyLoop]
  | x :: l, hl => by
    obtain ⟨hx, hl⟩ := List.forall_mem_cons.mp hl
    have ih := @verifyLoop_iff secret code l hl
    simp only [List.mem_cons, exists_eq_or_imp, ← ih]
    rw [GAuth.verifyLoop]
    cases hcode : L.getCode secret x with
    | none =>
      have hrest : ¬ L.verifyLoop secret code l = true := by
        rw [ih]
        intro h
        obtain ⟨y, -, hy⟩ := h
        rw [base32_none hx hcode y] at hy
        cases hy
      simp [hrest]
    | some calculated => by_cases heq : calculated = code <;> simp [heq]

/-- The check passes exactly if its slices are all from 1970 on and one of them has the code. -/
theorem verifyCode_iff {now discrepancy : Int} {secret code : Str} : L.verifyCode now secret code discrepancy = true ↔
    0 ≤ discrepancy ∧ discrepancy ≤ now.tdiv 30 ∧ ∃ timeSlice, now.tdiv 30 - discrepancy ≤ timeSlice ∧
      timeSlice ≤ now.tdiv 30 + discrepancy ∧ L.getCode secret timeSlice = some code := by
  unfold GAuth.verifyCode
  generalize now.tdiv 30 = cur
  rcases lt_or_ge discrepancy 0 with hneg | hd
  · have hnone : (2 * discrepancy + 1).toNat = 0 := by omega
    rw [hnone]
    exact ⟨fun h => (by cases h), fun h => absurd h.1 (not_le.mpr hneg)⟩
  rcases lt_or_ge cur discrepancy with hearly | hcur
  · -- the first slice is before 1970
    obtain ⟨n, hn⟩ : ∃ n, (2 * discrepancy + 1).toNat = n + 1 := ⟨(2 * discrepancy).toNat, by omega⟩
    have hfirst : L.getCode secret (cur - discrepancy + (0 : Nat)) = none := by
      by_contra h
      have := (getCode_isSome.mp (Option.isSome_iff_ne_none.mpr h)).2
      omega
    rw [hn, List.range_succ_eq_map, List.map_cons, GAuth.verifyLoop, hfirst]
    exact ⟨fun h => (by cases h), fun h => absurd h.2.1 (not_le.mpr hearly)⟩
  · rw [verifyLoop_iff]
    · simp only [List.mem_map, List.mem_range]
      constructor
      · intro hp
        obtain ⟨x, ⟨n, hn, rfl⟩, hcode⟩ := hp
        exact ⟨hd, hcur, _, by omega, by omega, hcode⟩
      · intro hp
        obtain ⟨-, -, x, hlow, hhigh, hcode⟩ := hp
        refine ⟨x, ⟨(x - (cur - discrepancy)).toNat, ?_, ?_⟩, hcode⟩ <;> omega
    · intro x hx
      obtain ⟨n, -, rfl⟩ := List.mem_map.mp hx
      omega

/-! ## Secrets that the server gives out -/

theorem seed_value : ∀ i : Fin 32, base32Value (seedAt i) = some i.val ∧ seedAt i ≠ '=' ∧ seedAt i ≠ '\r' ∧
    seedAt i ≠ '\n' ∧ (seedAt i).toNat < 128 ∧ (seedAt i).isLower = false := by decide

theorem readQuantum_seed (t : Str) : ∀ draws : List (Fin 32),
    readQuantum draws.length (getSeed draws ++ t) = some (draws.map (·.val), false, t)
  | [] => rfl
  | i :: draws => by
    obtain ⟨hvalue, hpad, -⟩ := seed_value i
    have ih := readQuantum_seed t draws
    have hcons : getSeed (i :: draws) ++ t = seedAt i :: (getSeed draws ++ t) := rfl
    rw [hcons, List.length_cons, readQuantum, if_neg (fun h => hpad h.1), hvalue, Option.bind_some, ih]
    rfl

theorem base32Loop_seed {draws : List (Fin 32)} (h : draws.length = 8) (n : Nat) (t : Str) :
    base32Loop (n + 1) (getSeed draws ++ t) = (base32Loop n t).map (quantumBytes (draws.map (·.val)) ++ ·) := by
  have hread := readQuantum_seed t draws
  rw [h] at hread
  cases draws with
  | nil => cases h
  | cons i draws =>
    have hcons : getSeed (i :: draws) ++ t = seedAt i :: (getSeed draws ++ t) := rfl
    rw [hcons] at hread ⊢
    rw [base32Loop, hread]
    · rfl
    · exact fun hnil => absurd hnil (List.cons_ne_nil _ _)

theorem base32Decode_seed {draws : List (Fin 32)} (h : draws.length = 16) :
    base32Decode (getSeed draws) =
      some (quantumBytes ((draws.take 8).map (·.val)) ++ quantumBytes ((draws.drop 8).map (·.val))) := by
  have hfilter : (getSeed draws).filter (fun c => c != '\r' && c != '\n') = getSeed draws := by
    refine List.filter_eq_self.mpr fun c hc => ?_
    obtain ⟨i, -, rfl⟩ := List.mem_map.mp hc
    obtain ⟨-, -, hr, hn, -⟩ := seed_value i
    simp only [Bool.and_eq_true, bne_iff_ne]
    exact ⟨hr, hn⟩
  have hsplit : getSeed draws = getSeed (draws.take 8) ++ (getSeed (draws.drop 8) ++ []) := by
    rw [List.append_nil, getSeed, getSeed, getSeed, ← List.map_append, List.take_append_drop]
  have hlen : (getSeed draws).length = 15 + 1 := by rw [getSeed, List.length_map, h]
  unfold base32Decode
  dsimp only
  rw [hfilter, hlen, hsplit, base32Loop_seed (by simp [h]), base32Loop_seed (n := 14) (by simp [h])]
  simp [base32Loop]

theorem toUpper_seed (L : GAuth) (draws : List (Fin 32)) : L.toUpper (getSeed draws) = getSeed draws := by
  refine L.toUpper_ascii _ fun c hc => ?_
  obtain ⟨i, -, rfl⟩ := List.mem_map.mp hc
  exact (seed_value i).2.2.2.2

theorem seed_has_code (L : GAuth) {draws : List (Fin 32)} (h : draws.length = 16) {timeSlice : Int} (ht : 0 ≤ timeSlice) :
    ∃ code, L.getCode (getSeed draws) timeSlice = some code :=
  Option.isSome_iff_exists.mp (getCode_isSome.mpr ⟨by rw [toUpper_seed, base32Decode_seed h]; rfl, ht⟩)

end

/-! ## Downloads -/

section
variable {E : Env} {c : Config}

/-- The files of a scene with a secret are given out exactly for the codes of the slices around the
    clock's; for none, where a slice of these is before 1970. -/
theorem downloads_open_iff (L : GAuth) (hgoogle : c.enableGoogleAuth = true) (htoken : c.downloadUseToken = false)
    (hurl : c.enableDownloadAuth = false ∨ c.authUrl = []) (s : Server) {r : Request} {secret : Str}
    (hlen : c.group.length + 2 ≤ r.requestURI.length) (hnames : NamesScene c r secret) (auth : Bool) (now : Int) :
    checkDownloadAuth (E.verifying (L.verifyCode now)) c s r false auth now = .allow ↔
      0 ≤ discrepancy c ∧ discrepancy c ≤ now.tdiv 30 ∧ ∃ timeSlice, now.tdiv 30 - discrepancy c ≤ timeSlice ∧
        timeSlice ≤ now.tdiv 30 + discrepancy c ∧ L.getCode secret timeSlice = some (r.formValue "code".toList) := by
  rw [checkDownloadAuth_code htoken hurl, checkGoogleCode_allow_iff hgoogle hlen, ← verifyCode_iff]
  have hone : ∀ secret', NamesScene c r secret' → secret' = secret := fun secret' h =>
    Option.some.inj (((namesScene_iff hlen).mp h).symm.trans ((namesScene_iff hlen).mp hnames))
  constructor
  · intro h
    exact h secret hnames
  · intro h secret' hnames'
    rw [hone secret' hnames']
    exact h

end

/-- A code that the server shows for a secret that it gave out opens the scene's downloads, at any
    time whose slice is within the discrepancy of the slice in which it was shown. -/
theorem shown_code_opens (E : Env) (L : GAuth) {c : Config} (hgoogle : c.enableGoogleAuth = true)
    (htoken : c.downloadUseToken = false) (hurl : c.enableDownloadAuth = false ∨ c.authUrl = []) {draws : List (Fin 32)}
    (hdraws : 16 ≤ draws.length) {secret : Str} (hsecret : genGoogleSecret true draws = .ok secret)
    {shown : Int} (hshown : 0 ≤ shown) :
    ∃ code, genGoogleCode L true secret shown = .ok code ∧
      ∀ (s : Server) (r : Request) (auth : Bool) (now : Int), c.group.length + 2 ≤ r.requestURI.length →
        NamesScene c r secret → r.formValue "code".toList = code → discrepancy c ≤ now.tdiv 30 →
        now.tdiv 30 - discrepancy c ≤ shown.tdiv 30 → shown.tdiv 30 ≤ now.tdiv 30 + discrepancy c →
        checkDownloadAuth (E.verifying (L.verifyCode now)) c s r false auth now = .allow := by
  obtain rfl : getSeed (draws.take 16) = secret := GoogleEnd.ok.inj hsecret
  obtain ⟨code, hcode⟩ := seed_has_code L (List.length_take_of_le hdraws) (Int.tdiv_nonneg hshown (by decide : (0 : Int) ≤ 30))
  refine ⟨code, ?_, fun s r auth now hlen hnames hform hearly hlow hhigh => ?_⟩
  · simp only [genGoogleCode, hcode]
    rfl
  · have hd : 0 ≤ discrepancy c := by omega
    have hopen := (downloads_open_iff (E := E) L hgoogle htoken hurl s hlen hnames auth now).mpr
    refine hopen ⟨hd, hearly, shown.tdiv 30, hlow, hhigh, ?_⟩
    rw [hform]
    exact hcode

/-! ## Fixed inputs -/

/-- HMAC-SHA1 of the slice 0 under the bytes of one secret, and ASCII upper case. -/
def helloAuth : GAuth where
  hmacSha1 key data :=
    if key = "Hello!\xde\xad\xbe\xef".toList ∧ data = List.replicate 8 '\x00' then
      "\x2c\xd8\xe9\x04\xe3\x95\xa7\x41\x48\x77\xaa\x2f\x82\x61\xe1\x24\x35\x72\xc4\x35".toList
    else List.replicate 20 '\x00'
  toUpper := List.map Char.toUpper
  length_hmacSha1 key data := by split_ifs <;> rfl
  toUpper_ascii s hs := by
    refine (List.map_congr_left fun c hc => ?_).trans (List.map_id s)
    have hlow : ¬ c.isLower = true := Bool.eq_false_iff.mp (hs c hc).2
    have hnot : ¬ ('a'.val ≤ c.val ∧ c.val ≤ 'z'.val) := by
      intro h
      exact hlow (Bool.and_eq_true_iff.mpr ⟨decide_eq_true h.1, decide_eq_true h.2⟩)
    exact dif_neg hnot

theorem helloAuth_code : helloAuth.getCode "JBSWY3DPEHPK3PXP".toList 0 = some "282760".toList := by decide +kernel

def coded : Request := { requestURI := "/group1/default/a.txt?code=282760".toList }

theorem coded_names : NamesScene (gatedConfig true) coded "JBSWY3DPEHPK3PXP".toList :=
  ⟨"/group1/".toList, "default".toList, "/a.txt?code=282760".toList, rfl, rfl, by decide, by decide,
    Or.inr (Or.inl ⟨_, rfl⟩), rfl⟩

/-- Ten minutes after its slice a code opens the scene. -/
theorem a_late_code_opens :
    checkDownloadAuth (Env.plain.verifying (helloAuth.verifyCode 610)) (gatedConfig true)
      (Server.fresh { cwd := [], nodes := ∅ })
      coded false true 610 = .allow :=
  (downloads_open_iff helloAuth rfl rfl (Or.inl rfl) _ (by decide) coded_names true 610).mpr
    ⟨by decide, by decide, 0, by decide, by decide, by rw [helloAuth_code]; decide +kernel⟩

def helloDraws : List (Fin 32) := [9, 1, 18, 22, 24, 27, 3, 15, 4, 7, 15, 10, 27, 15, 23, 15]

theorem a_shown_code_opens :
    checkDownloadAuth (Env.plain.verifying (helloAuth.verifyCode 629)) (gatedConfig true)
      (Server.fresh { cwd := [], nodes := ∅ })
      coded false true 629 = .allow := by
  obtain ⟨code, hshown, hopens⟩ := @shown_code_opens Env.plain helloAuth (gatedConfig true) rfl rfl (Or.inl rfl) helloDraws
    (by decide) "JBSWY3DPEHPK3PXP".toList (by decide) 29 (by decide)
  have hcode : code = "282760".toList := by
    have hgen : genGoogleCode helloAuth true "JBSWY3DPEHPK3PXP".toList 29 = .ok "282760".toList := by decide +kernel
    exact GoogleEnd.ok.inj (hshown.symm.trans hgen)
  refine hopens _ _ true 629 (by decide) coded_names ?_ (by decide) (by decide) (by decide)
  rw [hcode]
  decide +kernel

end GoFastdfs
