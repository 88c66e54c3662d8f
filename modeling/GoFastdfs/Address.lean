/-
  GoFastdfs.Address — the path of an answer given back as a parameter (`BuildFileResult` of
  `fileserver.go`, `GetFileInfo` of `http_info.go`, `RemoveFile` of `http_remove.go`).

  An answer's path is the record's without `files`, behind the group where addresses carry
  one. Both requests turn it back with a replacement and look up its digest. `RemoveFile`
  replaces `/group/` or `/`, as the setting has it; `GetFileInfo` replaces `/group/` always,
  so an address without a group stays as it is or loses a folder named as the group.

  Proved: the path leads `RemoveFile` to the record under both settings, and `GetFileInfo`
  exactly where addresses carry the group (`path_identifies_iff`), accidents of the digest
  aside: without a group no path is read back as it was recorded (`plain_path_differs`).
-/

import GoFastdfs.Runs

namespace GoFastdfs

open Go (Str)

variable (E : Env) (c : Config)

/-! ## The requests -/

/-- The path that `GetFileInfo` takes the digest of. -/
def infoPath (fpath : Str) : Str := Go.replaceFirst ('/' :: (c.group ++ ['/'])) (STORE_DIR_NAME ++ ['/']) fpath

/-- `md5sum` of `GetFileInfo`: the digest of the path given, or the digest given. -/
def infoKey (r : Request) : Str :=
  let fpath := r.formValue "path".toList
  if fpath ≠ [] then E.md5 (infoPath c fpath) else r.formValue "md5".toList

inductive InfoEnd where
  | notPeer
  | failed (message : Str)
  | found (fi : FileInfo)
  deriving DecidableEq, Repr

/-- `GetFileInfo`; `error` is the text of an error of the database. -/
def Server.getFileInfo (s : Server) (r : Request) (isPeer : Bool) (error : Str) : InfoEnd :=
  if isPeer = false then .notPeer
  else
    match s.getFileInfoFromLevelDB (infoKey E c r) with
    | none => .failed error
    | some fi => .found fi

/-- Whatever the server held, a record that is saved is what the key leads to. -/
def LeadsTo (fi : FileInfo) (k : Str) : Prop :=
  ∀ s : Server, (s.saveFileMd5Log E fi CONST_FILE_Md5_FILE_NAME).getFileInfoFromLevelDB k = some fi.persist

def Collide (a b : Str) : Prop := a ≠ b ∧ E.md5 a = E.md5 b

/-- `GetFileInfo` answers with the record when it is saved, and `RemoveFile` goes on with it. -/
structure Identifies (fi : FileInfo) (r : Request) : Prop where
  query : ∀ (s : Server) (error : Str),
    (s.saveFileMd5Log E fi CONST_FILE_Md5_FILE_NAME).getFileInfo E c r true error = .found fi.persist
  removal : ¬ (removeKey E c r).length < 32 ∧ LeadsTo E fi (removeKey E c r)

section
variable {E c}

/-! ## Keys -/

/-- A record is kept under its digest and under that of its path, and nowhere else. -/
theorem leadsTo_iff {fi : FileInfo} (hmd5 : fi.md5 ≠ []) {k : Str} :
    LeadsTo E fi k ↔ k = fi.md5 ∨ k = E.md5 fi.fullpath := by
  have hget : ∀ s : Server, (s.saveFileMd5Log E fi CONST_FILE_Md5_FILE_NAME).ldb.get k =
      if k = E.md5 fi.fullpath then some (.record fi.persist)
      else if k = fi.md5 then some (.record fi.persist) else s.ldb.get k := by
    intro s
    rw [Server.saveFileMd5Log_files_ldb E s hmd5, Store.get_put, Store.get_put]
  constructor
  · intro h
    by_contra hno
    obtain ⟨hm, hp⟩ := not_or.mp hno
    have hempty := Server.getFileInfo_eq_some.mp (h (Server.fresh { cwd := [], nodes := ∅ }))
    rw [hget, if_neg hp, if_neg hm] at hempty
    cases hempty
  · intro h s
    rw [Server.getFileInfo_eq_some, hget]
    rcases h with hm | hp
    · rw [if_pos hm, ite_self]
    · rw [if_pos hp]

theorem getFileInfo_found_iff {fi : FileInfo} {r : Request} :
    (∀ (s : Server) (error : Str),
      (s.saveFileMd5Log E fi CONST_FILE_Md5_FILE_NAME).getFileInfo E c r true error = .found fi.persist) ↔
        LeadsTo E fi (infoKey E c r) := by
  constructor
  · intro h s
    have hs := h s []
    unfold Server.getFileInfo at hs
    rw [if_neg (by simp)] at hs
    split at hs
    · cases hs
    · rename_i v hv
      cases hs
      exact hv
  · intro h s error
    unfold Server.getFileInfo
    rw [if_neg (by simp), h s]

/-! ## Paths -/

variable {fi : FileInfo} {q : Str}

theorem fullpath_eq (hpath : fi.path = STORE_DIR_NAME ++ '/' :: q) :
    fi.fullpath = (STORE_DIR_NAME ++ ['/']) ++ (q ++ '/' :: fi.outname) := by
  rw [FileInfo.fullpath, hpath]
  simp

/-- With the group in front the path is read back as it was recorded. -/
theorem infoPath_group (hpath : fi.path = STORE_DIR_NAME ++ '/' :: q) (hs : c.supportGroupManage = true) :
    infoPath c ('/' :: resultPath c fi) = fi.fullpath := by
  have h : '/' :: resultPath c fi = ('/' :: (c.group ++ ['/'])) ++ (q ++ '/' :: fi.outname) := by
    rw [resultPath_own c hpath, hs]
    simp
  rw [infoPath, h, Go.replaceFirst_append, fullpath_eq hpath]

/-- Without it no path is. -/
theorem plain_path_differs (hpath : fi.path = STORE_DIR_NAME ++ '/' :: q) (hs : c.supportGroupManage = false) :
    infoPath c ('/' :: resultPath c fi) ≠ fi.fullpath := by
  have h : resultPath c fi = q ++ '/' :: fi.outname := by
    rw [resultPath_own c hpath, hs]
    simp
  rw [h, fullpath_eq hpath, infoPath, Go.replaceFirst]
  split
  · rename_i hprefix
    obtain ⟨rest, hrest⟩ := List.isPrefixOf_iff_prefix.mp hprefix
    rw [← hrest, List.drop_left]
    intro heq
    have hlen := congrArg List.length hrest
    rw [List.append_cancel_left heq] at hlen
    simp at hlen
    omega
  · intro heq
    exact absurd (List.cons.inj heq).1 (by decide)

/-- `RemoveFile` reads the path back under either setting. -/
theorem removeKey_path (hpath : fi.path = STORE_DIR_NAME ++ '/' :: q) (hgroup : c.group ≠ []) {r : Request}
    (hr : r.formValue "path".toList = '/' :: resultPath c fi) (hno : r.formValue "md5".toList = []) :
    removeKey E c r = E.md5 fi.fullpath := by
  have hasked : '/' :: resultPath c fi ≠ [] ∧ r.formValue "md5".toList = [] := ⟨by simp, hno⟩
  simp only [removeKey, hr]
  rw [if_pos hasked]
  cases hs : c.supportGroupManage with
  | true =>
    rw [if_pos ⟨hgroup, rfl⟩, ← infoPath_group (c := c) hpath hs]
    rfl
  | false =>
    have h : '/' :: resultPath c fi = ['/'] ++ (q ++ '/' :: fi.outname) := by
      rw [resultPath_own c hpath, hs]
      simp
    rw [if_neg (by simp), h, Go.replaceFirst_append, fullpath_eq hpath]

/-- The path of an answer leads `GetFileInfo` and `RemoveFile` to the record exactly where
    addresses carry the group; else only a digest that two texts share does. -/
theorem path_identifies_iff (hlength : ∀ t, (E.md5 t).length = 32) (hpath : fi.path = STORE_DIR_NAME ++ '/' :: q)
    (hgroup : c.group ≠ []) (hmd5 : fi.md5 ≠ []) {dom : Str} {host : Option Str} {r : Request}
    (hr : r.formValue "path".toList = (buildFileResult c dom fi host).1.path) (hno : r.formValue "md5".toList = []) :
    Identifies E c fi r ↔
      c.supportGroupManage = true ∨ E.md5 (infoPath c (r.formValue "path".toList)) = fi.md5 ∨
        Collide E (infoPath c (r.formValue "path".toList)) fi.fullpath := by
  rw [buildFileResult_path] at hr
  have hinfo : infoKey E c r = E.md5 (infoPath c ('/' :: resultPath c fi)) := by
    simp only [infoKey, hr]
    rw [if_pos (by simp)]
  have hremove := removeKey_path (E := E) hpath hgroup hr hno
  have hremoval : ¬ (removeKey E c r).length < 32 ∧ LeadsTo E fi (removeKey E c r) := by
    rw [hremove, hlength, leadsTo_iff hmd5]
    exact ⟨by omega, Or.inr rfl⟩
  have hquery : Identifies E c fi r ↔ LeadsTo E fi (infoKey E c r) :=
    ⟨fun h => getFileInfo_found_iff.mp h.query, fun h => ⟨getFileInfo_found_iff.mpr h, hremoval⟩⟩
  rw [hquery, leadsTo_iff hmd5, hinfo, hr]
  cases hs : c.supportGroupManage with
  | true =>
    rw [infoPath_group hpath hs]
    simp
  | false =>
    have hdiffers := plain_path_differs (c := c) hpath hs
    constructor
    · intro hcase
      rcases hcase with hm | hp
      · exact Or.inr (Or.inl hm)
      · exact Or.inr (Or.inr ⟨hdiffers, hp⟩)
    · intro hcase
      rcases hcase with htrue | hm | ⟨_, hp⟩
      · cases htrue
      · exact Or.inl hm
      · exact Or.inr hp

end

/-! ## Fixed inputs -/

theorem md5_length (t : Str) : (Go.md5 t).length = 32 := by
  simp [Go.md5, Go.littleEndian, Go.hexByte]

def addressConfig (supportGroupManage : Bool) : Config :=
  { group := "group1".toList, supportGroupManage := supportGroupManage }

def addressFile : FileInfo :=
  { name := "a.txt".toList, path := "files/default".toList, md5 := "5d41402abc4b2a76b9719d911017c592".toList, offSet := -1 }

def pathRequest (fpath : Str) : Request := { requestURI := "/get_file_info".toList, body := [("path".toList, fpath)] }

/-- The address of a file on a node whose addresses carry no group is unknown to `GetFileInfo`. -/
theorem a_plain_address_is_not_found :
    (pathRequest "/default/a.txt".toList).formValue "path".toList =
      (buildFileResult (addressConfig false) "http".toList addressFile none).1.path ∧
    (pathRequest "/default/a.txt".toList).formValue "md5".toList = [] ∧
    ¬ Identifies Env.plain (addressConfig false) addressFile (pathRequest "/default/a.txt".toList) := by
  refine ⟨by decide +kernel, by decide +kernel, fun h => ?_⟩
  have hquery := h.query (Server.fresh { cwd := [], nodes := ∅ }) []
  revert hquery
  decide +kernel

theorem a_group_address_is_found :
    Identifies Env.plain (addressConfig true) addressFile (pathRequest "/group1/default/a.txt".toList) :=
  have hr : (pathRequest "/group1/default/a.txt".toList).formValue "path".toList =
      (buildFileResult (addressConfig true) "http".toList addressFile none).1.path := by decide +kernel
  have hpath : addressFile.path = STORE_DIR_NAME ++ '/' :: "default".toList := rfl
  (path_identifies_iff md5_length hpath (by decide) (by decide) hr (by decide +kernel)).mpr (Or.inl rfl)

end GoFastdfs
