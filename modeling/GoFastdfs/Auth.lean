/-
  GoFastdfs.Auth — download tokens (`CheckDownloadAuth` of `http_download.go`).

  The record behind a request is looked up under the digest of the path on disk,
  `DOCKER_DIR` included, or of a merged file's path with its whole name. A record is
  saved under the digest of the path recorded for it, which has no `DOCKER_DIR`. Where
  the lookup finds nothing the check falls through and lets the request pass.

  Proved: for one path, no request passes without the token of a given file exactly when
  the lookup finds a record with that file's digest (`token_needed_iff`); a record saved
  without `DOCKER_DIR` is found under the spelling that was recorded
  (`recorded_spelling_is_found`), and with `DOCKER_DIR` its own address passes with any
  token (`a_docker_dir_lets_any_token_pass`).
-/

import GoFastdfs.Metadata
import GoFastdfs.Request

namespace GoFastdfs

open Go (Str)

variable (E : Env) (c : Config)

inductive Verdict where
  | allow
  | deny (message : Str)
  /-- An index past the end of the address. -/
  | panic
  deriving DecidableEq, Repr

def checkToken (token md5sum timestamp : Str) : Bool := E.md5 (md5sum ++ timestamp) == token

/-- The key of the record behind a request. -/
def pathMd5 (r : Request) : Str :=
  let p := getFilePathFromRequest c r
  if p.2 ≠ [] then E.md5 p.2 else E.md5 p.1

def checkGoogleCode (r : Request) (isPeer : Bool) : Verdict :=
  if c.enableGoogleAuth = true ∧ isPeer = false then
    if r.requestURI.length < c.group.length + 2 then .panic else
    let scene := Go.splitHead '/' (Go.splitHead '?' (r.requestURI.drop (c.group.length + 2)))
    match c.sceneMap.lookup scene with
    | some secret =>
      if E.verifyGoogleCode secret (r.formValue "code".toList) (c.downloadTokenExpire.tdiv 30) then .allow
      else .deny "invalid google code".toList
    | none => .allow
  else .allow

/-- `CheckDownloadAuth`; `isPeer` and `auth` are the answers of `IsPeer` and `CheckAuth`. -/
def checkDownloadAuth (s : Server) (r : Request) (isPeer auth : Bool) (now : Int) : Verdict :=
  if c.enableDownloadAuth = true ∧ c.authUrl ≠ [] ∧ isPeer = false ∧ auth = false then .deny "auth fail".toList
  else if c.downloadUseToken = true ∧ isPeer = false then
    let token := r.formValue "token".toList
    let timestamp := r.formValue "timestamp".toList
    if token = [] ∨ timestamp = [] then .deny "unvalid request".toList else
    match Go.parseInt timestamp with
    | (_, false) => .deny "unvalid timestamp".toList
    | (ts, true) =>
      if ts > now + c.downloadTokenExpire ∨ ts < now - c.downloadTokenExpire then .deny "timestamp expire".toList else
      match s.getFileInfoFromLevelDB (pathMd5 E c r) with
      | none => checkGoogleCode E c r isPeer
      | some fi => if checkToken E token fi.md5 timestamp then .allow else .deny "unvalid token".toList
  else checkGoogleCode E c r isPeer

/-- The request carries a fresh timestamp and the token of the file. -/
def ValidToken (fi : FileInfo) (r : Request) (now : Int) : Prop :=
  ∃ ts, Go.parseInt (r.formValue "timestamp".toList) = (ts, true) ∧
    now - c.downloadTokenExpire ≤ ts ∧ ts ≤ now + c.downloadTokenExpire ∧
    r.formValue "token".toList = E.md5 (fi.md5 ++ r.formValue "timestamp".toList)

section
variable {E c}

/-- With tokens on and the other checks off, a request passes with a fresh timestamp and,
    where a record is found, the token of that record. -/
theorem checkDownloadAuth_allow_iff (huse : c.downloadUseToken = true) (hgoogle : c.enableGoogleAuth = false)
    (hauth : c.enableDownloadAuth = false) {s : Server} {r : Request} {auth : Bool} {now : Int} :
    checkDownloadAuth E c s r false auth now = .allow ↔
      r.formValue "token".toList ≠ [] ∧ r.formValue "timestamp".toList ≠ [] ∧
      (∃ ts, Go.parseInt (r.formValue "timestamp".toList) = (ts, true) ∧
        now - c.downloadTokenExpire ≤ ts ∧ ts ≤ now + c.downloadTokenExpire) ∧
      ∀ v, s.getFileInfoFromLevelDB (pathMd5 E c r) = some v →
        E.md5 (v.md5 ++ r.formValue "timestamp".toList) = r.formValue "token".toList := by
  have hcode : checkGoogleCode E c r false = .allow := by simp [checkGoogleCode, hgoogle]
  unfold checkDownloadAuth
  rw [if_neg (by simp [hauth]), if_pos ⟨huse, rfl⟩]
  generalize r.formValue "token".toList = token
  generalize r.formValue "timestamp".toList = timestamp
  dsimp only
  by_cases hempty : token = [] ∨ timestamp = []
  · rw [if_pos hempty]
    exact ⟨fun h => (by cases h), fun h => absurd hempty (by simp [h.1, h.2.1])⟩
  · rw [if_neg hempty]
    obtain ⟨htok, hts⟩ := not_or.mp hempty
    cases hp : Go.parseInt timestamp with
    | mk ts ok =>
      cases ok with
      | false => simp
      | true =>
        dsimp only
        by_cases hexp : ts > now + c.downloadTokenExpire ∨ ts < now - c.downloadTokenExpire
        · rw [if_pos hexp]
          refine ⟨fun h => (by cases h), ?_⟩
          intro hx
          obtain ⟨_, _, ⟨ts', hts', h1, h2⟩, _⟩ := hx
          obtain rfl : ts = ts' := (Prod.mk.inj hts').1
          omega
        · rw [if_neg hexp]
          have hfresh : ∃ ts', (ts, true) = (ts', true) ∧ now - c.downloadTokenExpire ≤ ts' ∧
              ts' ≤ now + c.downloadTokenExpire := ⟨ts, rfl, by omega, by omega⟩
          cases hl : s.getFileInfoFromLevelDB (pathMd5 E c r) with
          | none => exact ⟨fun _ => ⟨htok, hts, hfresh, fun v hv => by cases hv⟩, fun _ => hcode⟩
          | some v =>
            have hiff : checkToken E token v.md5 timestamp = true ↔ E.md5 (v.md5 ++ timestamp) = token := by
              simp [checkToken]
            dsimp only
            by_cases ht : checkToken E token v.md5 timestamp = true
            · rw [if_pos ht]
              exact ⟨fun _ => ⟨htok, hts, hfresh, fun w hw => Option.some.inj hw ▸ hiff.mp ht⟩, fun _ => rfl⟩
            · rw [if_neg ht]
              exact ⟨fun h => (by cases h), fun h => absurd (hiff.mpr (h.2.2.2 v rfl)) ht⟩

def Request.withToken (r : Request) (token timestamp : Str) : Request :=
  { r with body := [("token".toList, token), ("timestamp".toList, timestamp)] }

theorem withToken_token (r : Request) (token timestamp : Str) :
    (r.withToken token timestamp).formValue "token".toList = token := rfl

theorem withToken_timestamp (r : Request) (token timestamp : Str) :
    (r.withToken token timestamp).formValue "timestamp".toList = timestamp := rfl

/-- For one path: nobody passes without the token of the file exactly when the path's own
    key holds a record with the file's digest; a collision of two records' tokens aside. -/
theorem token_needed_iff (huse : c.downloadUseToken = true) (hgoogle : c.enableGoogleAuth = false)
    (hauth : c.enableDownloadAuth = false) (hexpire : 0 ≤ c.downloadTokenExpire) (hmd5 : ∀ t, E.md5 t ≠ [])
    {s : Server} {fi : FileInfo} {r0 : Request}
    (hcollide : ∀ v, s.getFileInfoFromLevelDB (pathMd5 E c r0) = some v →
      E.md5 (v.md5 ++ ['0']) = E.md5 (fi.md5 ++ ['0']) → v.md5 = fi.md5) :
    (∀ r auth now, getFilePathFromRequest c r = getFilePathFromRequest c r0 →
      checkDownloadAuth E c s r false auth now = .allow → ValidToken E c fi r now) ↔
    (s.getFileInfoFromLevelDB (pathMd5 E c r0)).map (·.md5) = some fi.md5 := by
  constructor
  · intro h
    -- the timestamp `0` at time 0, with a token that is not the file's
    have hbad : ∀ token, token ≠ [] → token ≠ E.md5 (fi.md5 ++ ['0']) →
        (∀ v, s.getFileInfoFromLevelDB (pathMd5 E c r0) = some v → E.md5 (v.md5 ++ ['0']) = token) → False := by
      intro token hne hwrong hfound
      have hallow : checkDownloadAuth E c s (r0.withToken token ['0']) false false 0 = .allow := by
        rw [checkDownloadAuth_allow_iff huse hgoogle hauth, withToken_token, withToken_timestamp]
        exact ⟨hne, by simp, ⟨0, rfl, by omega, by omega⟩, hfound⟩
      obtain ⟨_, _, _, _, htok⟩ := h (r0.withToken token ['0']) false 0 rfl hallow
      rw [withToken_token, withToken_timestamp] at htok
      exact hwrong htok
    cases hl : s.getFileInfoFromLevelDB (pathMd5 E c r0) with
    | none =>
      exact (hbad ('x' :: E.md5 (fi.md5 ++ ['0'])) (by simp) (List.cons_ne_self _ _)
        (fun v hv => by rw [hl] at hv; cases hv)).elim
    | some v =>
      by_contra hne
      have hv : v.md5 ≠ fi.md5 := fun e => hne (by rw [Option.map_some, e])
      refine hbad (E.md5 (v.md5 ++ ['0'])) (hmd5 _) (fun e => hv (hcollide v hl e)) fun w hw => ?_
      rw [hl] at hw
      rw [← Option.some.inj hw]
  · intro hfound r auth now hpath hallow
    have hkey : pathMd5 E c r = pathMd5 E c r0 := by simp only [pathMd5, hpath]
    rw [checkDownloadAuth_allow_iff huse hgoogle hauth, hkey] at hallow
    obtain ⟨_, _, ⟨ts, hts, h1, h2⟩, htok⟩ := hallow
    obtain ⟨v, hv, hmd⟩ := Option.map_eq_some_iff.mp hfound
    exact ⟨ts, hts, h1, h2, by rw [← htok v hv, hmd]⟩

/-- A saved record is found by a request whose path is spelled as it was recorded; no path
    of a request is spelled so where `DOCKER_DIR` is set. -/
theorem recorded_spelling_is_found (s : Server) {fi : FileInfo} (hmd5 : fi.md5 ≠ []) {r : Request}
    (hr : (if (getFilePathFromRequest c r).2 ≠ [] then (getFilePathFromRequest c r).2 else (getFilePathFromRequest c r).1) =
      fi.fullpath) :
    ((s.saveFileMd5Log E fi CONST_FILE_Md5_FILE_NAME).getFileInfoFromLevelDB (pathMd5 E c r)).map (·.md5) =
      some fi.md5 := by
  have hkey : pathMd5 E c r = E.md5 fi.fullpath := by
    unfold pathMd5
    rw [← hr]
    dsimp only
    split <;> rfl
  have hn : ¬ (fi.md5 = [] ∨ CONST_FILE_Md5_FILE_NAME = []) := by simp [hmd5]; decide
  have hget : (s.saveFileMd5Log E fi CONST_FILE_Md5_FILE_NAME).ldb.get (E.md5 fi.fullpath) = some (.record fi.persist) := by
    simp only [Server.saveFileMd5Log, if_neg hn, if_true]
    exact Store.get_put_self _ _ _
  rw [hkey, Server.getFileInfo_eq_some.mpr hget]
  rfl

end

/-! ## Fixed inputs -/

def tokenConfig (dockerDir : Str) : Config :=
  { dockerDir := dockerDir, group := "group1".toList, downloadUseToken := true, downloadTokenExpire := 600 }

def tokenFile : FileInfo :=
  { name := "a.txt".toList, path := "files/default".toList, md5 := "5d41402abc4b2a76b9719d911017c592".toList, size := 5
    offSet := -1 }

def tokenServer : Server :=
  Server.saveFileMd5Log Env.plain (Server.fresh { cwd := [], nodes := ∅ }) tokenFile CONST_FILE_Md5_FILE_NAME

def tokenRequest : Request := { requestURI := "/default/a.txt".toList }

def allowedRequest : Request := tokenRequest.withToken (Go.md5 (tokenFile.md5 ++ "1000".toList)) "1000".toList

/-- Without `DOCKER_DIR` the file's own address is given out for the file's token. -/
theorem own_address_needs_the_token : ValidToken Env.plain (tokenConfig []) tokenFile allowedRequest 1000 := by
  have hrec : tokenServer.getFileInfoFromLevelDB (pathMd5 Env.plain (tokenConfig []) tokenRequest) = some tokenFile := by
    decide +kernel
  have hcollide : ∀ v, tokenServer.getFileInfoFromLevelDB (pathMd5 Env.plain (tokenConfig []) tokenRequest) = some v →
      Env.plain.md5 (v.md5 ++ ['0']) = Env.plain.md5 (tokenFile.md5 ++ ['0']) → v.md5 = tokenFile.md5 := by
    intro v hv _
    rw [hrec] at hv
    rw [← Option.some.inj hv]
  exact (token_needed_iff rfl rfl rfl (by decide) Go.md5_ne_nil hcollide).mpr (by rw [hrec]; rfl) allowedRequest false 1000
    rfl (by decide +kernel)

/-- With `DOCKER_DIR` set, the address of the recorded file passes with any token. -/
theorem a_docker_dir_lets_any_token_pass :
    let r : Request := { requestURI := "/default/a.txt?token=x&timestamp=1000".toList }
    (getFilePathFromRequest (tokenConfig "/data/".toList) r).1 = getFilePathByInfo (tokenConfig "/data/".toList) tokenFile ∧
      tokenServer.getFileInfoFromLevelDB (Env.plain.md5 tokenFile.fullpath) = some tokenFile ∧
      checkDownloadAuth Env.plain (tokenConfig "/data/".toList) tokenServer r false false 1000 = .allow ∧
      r.formValue "token".toList ≠ Env.plain.md5 (tokenFile.md5 ++ r.formValue "timestamp".toList) := by
  decide +kernel

end GoFastdfs
