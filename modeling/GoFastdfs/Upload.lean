/-
  GoFastdfs.Upload — a POST upload (`upload`, `CheckScene`, `SaveUploadFile` and
  `TrimFileNameSpecialChar` of `http_upload.go`).

  The file is written first, under a folder made of the scene, the time and the peer id
  or of the request's own path, and under the multipart name or the name asked for. A
  name that is taken is numbered. Its digest is looked up afterwards: if a record has it,
  the new file is removed again by the path of its own record, and the answer is the old
  record's. The three formats of the answer carry the same result.

  Proved: where the folder has no `%` and the number of a taken name gets into the record,
  or is of no account, the file is written at a free place to which the record leads
  (`saveUploadFile_cases`); so no file already there is touched by it. Everywhere, a file
  that is saved is written whole (`saveUploadFile_eq_ok`).
-/

import GoFastdfs.Go.Fmt
import GoFastdfs.Sync
import GoFastdfs.SmallFile

namespace GoFastdfs

open Go (Str Arg)

variable (E : Env) (c : Config)

/-! ## The request -/

structure FileHeader where
  filename : Str
  size : Int

/-- A multipart request: the values of its form, and the part `file` with its bytes or the
    error of `FormFile`. -/
structure UploadRequest where
  requestURI : Str
  host : Str := []
  values : List (Str × Str) := []
  file : Except Str (FileHeader × Str)

/-- `r.FormValue` of a multipart form: the query comes first. -/
def UploadRequest.formValue (r : UploadRequest) (key : Str) : Str :=
  ((Go.parseQuery (Go.rawQuery r.requestURI) ++ r.values).lookup key).getD []

/-- What the surroundings decide of an upload: the time of the record and the time of the
    file, `GetUUID`, the bytes after which `io.Copy` fails if it does, the text of an error
    of the operating system, and the draw of `SaveSmallFile`. -/
structure UploadDraw where
  stamp : Int
  now : Int
  uuid : Str := []
  failAfter : Option Nat := none
  osError : Str := []
  small : Draw

def checkScene (scene : Str) : Bool := c.scenes.isEmpty || (c.scenes.map (Go.splitHead ':')).contains scene

def checkUploadCode (scene code : Str) : Bool :=
  if c.enableGoogleAuth = true ∧ scene ≠ [] then
    match c.sceneMap.lookup scene with
    | some secret => E.verifyGoogleCode secret code (c.downloadTokenExpire.tdiv 30)
    | none => true
  else true

def UploadRequest.scene (r : UploadRequest) : Str :=
  if r.formValue "scene".toList = [] then r.formValue "scenes".toList else r.formValue "scene".toList

def UploadRequest.output (r : UploadRequest) : Str :=
  if r.formValue "output".toList = [] then "text".toList else r.formValue "output".toList

/-- The path asked for, its dots left out. -/
def UploadRequest.path (r : UploadRequest) : Str :=
  if c.enableCustomPath then Go.trim '/' (Go.replaceAll ['.'] [] (r.formValue "path".toList)) else []

def UploadRequest.fileInfo (r : UploadRequest) (stamp : Int) : FileInfo :=
  { md5 := r.formValue "md5".toList, reName := r.formValue "filename".toList, offSet := -1, timeStamp := stamp
    scene := if r.scene = [] then c.defaultScene else r.scene
    path := r.path c }

/-- What `upload` does before the file is written: the file and the record so far, or the
    message of a refusal. -/
def uploadForm (r : UploadRequest) (stamp : Int) : Except Str (FileHeader × Str × FileInfo) :=
  if c.readOnly then .error "(error) readonly".toList
  else if checkUploadCode E c r.scene (r.formValue "code".toList) = false then
    .error "invalid request,error google code".toList
  else
    match r.file with
    | .error msg => .error msg
    | .ok (header, data) =>
      if ["json".toList, "text".toList, "json2".toList].contains r.output = false then
        .error "output just support json or text or json2".toList
      else if checkScene c (r.fileInfo c stamp).scene = false then .error "not valid scene".toList
      else .ok (header, data, r.fileInfo c stamp)

/-! ## The file -/

def specialChars : Str :=
  "/\\:*?\"<>|()[]".toList ++ ['\x7b', '\x7d'] ++ ",;'#@%&$^~=+-!".toList ++ ['\t', '\n', '\x0c', '\r', ' ']

def trimFileNameSpecialChar (s : Str) : Str :=
  Go.replaceAll "..".toList [] (Go.replaceAll "...".toList [] (s.filter (· ∉ specialChars)))

def uploadName (header : FileHeader) : Str :=
  let name := Go.afterLast '/' header.filename
  if c.enableTrimFileNameSpecialChar then trimFileNameSpecialChar name else name

def uploadReName (header : FileHeader) (fi : FileInfo) (uuid : Str) : Str :=
  if c.renameFile then E.md5 uuid ++ Go.pathExt (uploadName c header) else fi.reName

def uploadFolder (fi : FileInfo) (now : Int) : Str :=
  let folder := Go.dayHourMinute E.zone now
  let folder := if c.peerId ≠ [] then Go.sprintf (folder ++ "/%s".toList) [.str c.peerId] else folder
  let folder :=
    if fi.scene ≠ [] then Go.sprintf (c.STORE_DIR ++ "/%s/%s".toList) [.str fi.scene, .str folder]
    else Go.sprintf (c.STORE_DIR ++ "/%s".toList) [.str folder]
  if fi.path ≠ [] then if Go.hasPrefix fi.path c.STORE_DIR then fi.path else c.STORE_DIR ++ '/' :: fi.path
  else folder

def withFolder (d : Disk) (folder : Str) : Disk := if d.fileExists folder then d else d.mkdirAll folder

/-- The loop over the numbers from `i` on, while the place is taken: the place and the name. -/
def numberLoop (d : Disk) (folder : Str) : Nat → Nat → Str → Str → Str × Str
  | 0, _, outPath, name => (outPath, name)
  | left + 1, i, _, name =>
    let outPath := Go.sprintf (folder ++ "/%d_%s".toList) [.int i, .str (Go.pathBase name)]
    let name := Go.itoa i ++ '_' :: name
    if d.fileExists outPath then numberLoop d folder left (i + 1) outPath name else (outPath, name)

def uploadPlace (d : Disk) (folder name reName : Str) : Str × Str :=
  let outPath := Go.sprintf (folder ++ "/%s".toList) [.str (if reName = [] then name else reName)]
  if d.fileExists outPath = true ∧ c.enableDistinctFile = true then numberLoop d folder 10000 0 outPath name
  else (outPath, name)

def fileSum (data : Str) : Str :=
  if Go.toLower c.fileSumArithmetic = "sha1".toList then E.sha1 data else E.md5 data

def saveUploadFile (s : Server) (header : FileHeader) (data : Str) (fi : FileInfo) (w : UploadDraw) :
    Except Str FileInfo × Disk :=
  let name := uploadName c header
  if c.extensions.isEmpty = false ∧ c.extensions.contains (Go.pathExt (Go.toLower name)) = false then
    (.error "(error)file extension mismatch".toList, s.disk)
  else
    let reName := uploadReName E c header fi w.uuid
    let folder := uploadFolder E c fi w.now
    let d := withFolder s.disk folder
    let place := uploadPlace c d folder name reName
    let copied := ioCopy data false w.failAfter
    match d.create place.1 copied.1 w.now with
    | none => (.error w.osError, d)
    | some d =>
      if copied.2 = false then (.error ("(error)fail,".toList ++ w.osError), d)
      else if (copied.1.length : Int) ≠ header.size then (.error "(error)file uncomplete".toList, d)
      else
        (.ok { fi with
          name := place.2, reName := reName, size := copied.1.length, md5 := fileSum E c copied.1
          path := Go.replaceFirst c.dockerDir [] folder, peers := fi.peers ++ [s.host] }, d)

/-! ## The upload -/

inductive UploadEnd where
  | refused (message : Str)
  /-- The digest is known: the result of the record found. -/
  | known (fi : FileInfo) (result : FileResult)
  /-- The file is recorded, and the answer is `file size is zero`. -/
  | empty (fi : FileInfo)
  | stored (fi : FileInfo) (result : FileResult)
  deriving DecidableEq, Repr

namespace UploadEnd

def answered : UploadEnd → Option FileInfo
  | known fi _ | stored fi _ => some fi
  | refused _ | empty _ => none

def recorded : UploadEnd → Option FileInfo
  | stored fi _ | empty fi => some fi
  | refused _ | known _ _ => none

end UploadEnd

def merges (size : Int) : Bool := c.enableMergeSmallFile = true ∧ size < CONST_SMALL_FILE_SIZE

namespace Server

/-- The result of a record, with the download domain as `BuildFileResult` leaves it. -/
def withResult (s : Server) (fi : FileInfo) (host : Str) : FileResult × Server :=
  let r := buildFileResult c s.downloadDomain fi (some host)
  (r.1, { s with downloadDomain := r.2 })

/-- The record that makes an upload superfluous. -/
def distinctRecord (s : Server) (md5 : Str) : Option FileInfo :=
  if c.enableDistinctFile then (s.getFileInfoFromLevelDB md5).filter (·.md5 ≠ []) else none

def recordUpload (s : Server) (md5sum host : Str) (fi : FileInfo) (w : UploadDraw) : UploadEnd × Server :=
  match s.distinctRecord c fi.md5 with
  | some v =>
    let r := s.withResult c v host
    (.known v r.1,
      if getFilePathByInfo c fi ≠ getFilePathByInfo c v then r.2.osRemove (getFilePathByInfo c fi) else r.2)
  | none =>
    if fi.md5 = [] then (.refused " fileInfo.Md5 is null".toList, s)
    else if md5sum ≠ [] ∧ fi.md5 ≠ md5sum then (.refused " fileInfo.Md5 and md5sum !=".toList, s)
    else
      let saved := if merges c fi.size then saveSmallFile c s.disk fi w.small else (some fi, s.disk)
      match saved with
      | (none, d) => (.refused w.osError, { s with disk := d })
      | (some fi, d) =>
        let s := { s with disk := d }.saveFileMd5Log E fi CONST_FILE_Md5_FILE_NAME
        if fi.size ≤ 0 then (.empty fi, s)
        else
          let r := s.withResult c fi host
          (.stored fi r.1, r.2)

def upload (s : Server) (r : UploadRequest) (w : UploadDraw) : UploadEnd × Server :=
  match uploadForm E c r w.stamp with
  | .error msg => (.refused msg, s)
  | .ok (header, data, fi) =>
    match saveUploadFile E c s header data fi w with
    | (.error msg, d) => (.refused msg, { s with disk := d })
    | (.ok fi, d) => { s with disk := d }.recordUpload E c (r.formValue "md5".toList) r.host fi w

end Server

/-! ## The place of the file -/

theorem uploadForm_ok {r : UploadRequest} {stamp : Int} {header : FileHeader} {data : Str} {fi : FileInfo}
    (h : uploadForm E c r stamp = .ok (header, data, fi)) : r.file = .ok (header, data) ∧ fi = r.fileInfo c stamp := by
  unfold uploadForm at h
  split at h
  · cases h
  split at h
  · cases h
  split at h
  · cases h
  · rename_i hf
    split at h
    · cases h
    split at h
    · cases h
    · cases h
      exact ⟨hf, rfl⟩

theorem slash_notMem_uploadName (header : FileHeader) : '/' ∉ uploadName c header := by
  have h := Go.notMem_afterLast '/' header.filename
  simp only [uploadName]
  split
  · intro hm
    exact h (List.mem_filter.mp (Go.mem_of_mem_replaceAll (Go.mem_of_mem_replaceAll hm))).1
  · exact h

theorem uploadFolder_eq (hd : '%' ∉ c.dockerDir) (fi : FileInfo) (now : Int) :
    ∃ rest, uploadFolder E c fi now = c.STORE_DIR ++ rest := by
  have hs : '%' ∉ c.STORE_DIR := by
    intro h
    rcases List.mem_append.mp h with h | h
    · exact hd h
    · exact absurd h (by decide)
  simp only [uploadFolder]
  split
  · split
    · rename_i hp
      obtain ⟨rest, hr⟩ := Go.hasPrefix_iff.mp hp
      exact ⟨rest, hr.symm⟩
    · exact ⟨_, rfl⟩
  · split
    · rw [Go.sprintf_str_str hs]
      exact ⟨_, rfl⟩
    · rw [Go.sprintf_str hs]
      exact ⟨_, rfl⟩

theorem dockerDir_folder (hd : '%' ∉ c.dockerDir) (fi : FileInfo) (now : Int) :
    c.dockerDir ++ Go.replaceFirst c.dockerDir [] (uploadFolder E c fi now) = uploadFolder E c fi now := by
  obtain ⟨rest, hr⟩ := uploadFolder_eq E c hd fi now
  rw [hr, Config.STORE_DIR, List.append_assoc, Go.replaceFirst_append, List.nil_append]

def numbered : Nat → Nat → Str → Str
  | i, 0, name => Go.itoa i ++ '_' :: name
  | i, k + 1, name => numbered (i + 1) k (Go.itoa i ++ '_' :: name)

def printedPlace (folder : Str) : Nat → Nat → Str → Str
  | i, 0, name => Go.sprintf (folder ++ "/%d_%s".toList) [.int i, .str (Go.pathBase name)]
  | i, k + 1, name => printedPlace folder (i + 1) k (Go.itoa i ++ '_' :: name)

/-- The name at the number `k`: the base of a name of which nothing is left is a dot. -/
def numberedPlace (name : Str) (k : Nat) : Str := if name = [] ∧ k = 0 then "0_.".toList else numbered 0 k name

/-- The number at which the loop ends: the first free one, or the last one. -/
structure LoopEnds (d : Disk) (folder name : Str) (k : Nat) : Prop where
  bound : k < 10000
  taken : ∀ j < k, d.fileExists (printedPlace folder 0 j name) = true
  free : k < 9999 → d.fileExists (printedPlace folder 0 k name) = false

/-- The name asked for (`ReName` if it is set, else `Name`). -/
def askedName (header : FileHeader) (fi : FileInfo) (w : UploadDraw) : Str :=
  if uploadReName E c header fi w.uuid = [] then uploadName c header else uploadReName E c header fi w.uuid

/-- The folder is a format without directives. -/
def PlainFolder (fi : FileInfo) (w : UploadDraw) : Prop :=
  '%' ∉ c.dockerDir ∧ '%' ∉ uploadFolder E c fi w.now

/-- A file of the asked name is there, and it is to be numbered. -/
def Numbered (s : Server) (header : FileHeader) (fi : FileInfo) (w : UploadDraw) : Prop :=
  let folder := uploadFolder E c fi w.now
  (withFolder s.disk folder).fileExists (folder ++ '/' :: askedName E c header fi w) = true ∧ c.enableDistinctFile = true

section
variable {E c}

theorem slash_notMem_number {name : Str} (hs : '/' ∉ name) (i : Nat) : '/' ∉ Go.itoa (i : Int) ++ '_' :: name := by
  intro hm
  rcases List.mem_append.mp hm with hm | hm
  · exact Go.notMem_itoa (by decide) i hm
  · rcases List.mem_cons.mp hm with hm | hm
    · exact absurd hm (by decide)
    · exact hs hm

/-- The loop takes the first number whose place is free, or the last one. -/
theorem numberLoop_first {d : Disk} (folder : Str) (left : Nat) : ∀ (i : Nat) (p name : Str),
    ∃ k ≤ left, numberLoop d folder (left + 1) i p name = (printedPlace folder i k name, numbered i k name) ∧
      (∀ j < k, d.fileExists (printedPlace folder i j name) = true) ∧
      (k < left → d.fileExists (printedPlace folder i k name) = false) := by
  induction left with
  | zero =>
    intro i p name
    refine ⟨0, le_refl _, ?_, fun j hj => absurd hj (by omega), fun h => absurd h (by omega)⟩
    rw [numberLoop]
    split <;> rfl
  | succ left ih =>
    intro i p name
    by_cases htaken : d.fileExists (printedPlace folder i 0 name) = true
    · obtain ⟨k, hk, hloop, hbefore, hfree⟩ := ih (i + 1) (printedPlace folder i 0 name) (Go.itoa i ++ '_' :: name)
      refine ⟨k + 1, by omega, ?_, fun j hj => ?_, fun h => hfree (by omega)⟩
      · rw [numberLoop]
        exact (if_pos htaken).trans hloop
      · cases j with
        | zero => exact htaken
        | succ j => exact hbefore j (by omega)
    · refine ⟨0, by omega, ?_, fun j hj => absurd hj (by omega), fun _ => by simpa using htaken⟩
      rw [numberLoop]
      exact if_neg htaken

/-- The whole loop. -/
theorem numberLoop_ends (d : Disk) (folder p name : Str) :
    ∃ k, LoopEnds d folder name k ∧
      numberLoop d folder 10000 0 p name = (printedPlace folder 0 k name, numbered 0 k name) := by
  obtain ⟨k, hk, hloop, hbefore, hfree⟩ := numberLoop_first (d := d) folder 9999 0 p name
  exact ⟨k, ⟨by omega, hbefore, hfree⟩, hloop⟩

theorem LoopEnds.unique {d : Disk} {folder name : Str} {k j : Nat} (hk : LoopEnds d folder name k)
    (hj : LoopEnds d folder name j) : k = j := by
  have hlt : ∀ {a b : Nat}, LoopEnds d folder name a → LoopEnds d folder name b → ¬ a < b := by
    intro a b ha hb h
    have hfree := ha.free (by have := hb.bound; omega)
    rw [hb.taken a h] at hfree
    cases hfree
  have h1 := hlt hk hj
  have h2 := hlt hj hk
  omega

/-- In a folder without `%` a number stands before what is left of the name. -/
theorem printedPlace_plain {folder : Str} (hf : '%' ∉ folder) (k : Nat) : ∀ (i : Nat) {name : Str}, '/' ∉ name → name ≠ [] →
    printedPlace folder i k name = folder ++ '/' :: numbered i k name := by
  induction k with
  | zero =>
    intro i name hs hn
    rw [printedPlace, Go.sprintf_int_str hf, Go.pathBase_of_notMem hn hs]
    rfl
  | succ k ih =>
    intro i name hs _
    exact ih (i + 1) (slash_notMem_number hs i) (by simp)

theorem printedPlace_numbered {folder : Str} (hf : '%' ∉ folder) {name : Str} (hs : '/' ∉ name) (k : Nat) :
    printedPlace folder 0 k name = folder ++ '/' :: numberedPlace name k := by
  by_cases hn : name = []
  · subst hn
    cases k with
    | zero =>
      have hfirst : Go.itoa ((0 : Nat) : Int) ++ '_' :: Go.pathBase [] = "0_.".toList := by decide
      rw [printedPlace, Go.sprintf_int_str hf, hfirst]
      rfl
    | succ k =>
      rw [numberedPlace, if_neg (by simp)]
      exact printedPlace_plain hf k 1 (by decide) (by decide)
  · rw [numberedPlace, if_neg fun h => hn h.1]
    exact printedPlace_plain hf k 0 hs hn

/-- The place of a plain upload: the name asked for, or the number at which the loop ends. -/
theorem uploadPlace_cases (hdist : c.enableDistinctFile = true) (d : Disk) {folder name : Str} (reName : Str)
    (hf : '%' ∉ folder) (hs : '/' ∉ name) :
    (d.fileExists (folder ++ '/' :: (if reName = [] then name else reName)) = false ∧
      uploadPlace c d folder name reName = (folder ++ '/' :: (if reName = [] then name else reName), name)) ∨
    (d.fileExists (folder ++ '/' :: (if reName = [] then name else reName)) = true ∧ ∃ k, LoopEnds d folder name k ∧
      uploadPlace c d folder name reName = (folder ++ '/' :: numberedPlace name k, numbered 0 k name)) := by
  unfold uploadPlace
  dsimp only
  rw [Go.sprintf_str hf]
  by_cases htaken : d.fileExists (folder ++ '/' :: (if reName = [] then name else reName)) = true
  · obtain ⟨k, hk, hloop⟩ := numberLoop_ends d folder (folder ++ '/' :: (if reName = [] then name else reName)) name
    rw [printedPlace_numbered hf hs] at hloop
    exact Or.inr ⟨htaken, k, hk, (if_pos ⟨htaken, hdist⟩).trans hloop⟩
  · exact Or.inl ⟨by simpa using htaken, if_neg fun h => htaken h.1⟩

/-- Where a number is free, the loop ends at a free one; of a name of which nothing is left that is
    a later one if the first is taken. -/
theorem LoopEnds.place_free {d : Disk} {folder name : Str} {k : Nat} (h : LoopEnds d folder name k) (hf : '%' ∉ folder)
    (hs : '/' ∉ name) (hfree : ∃ j < 10000, d.fileExists (folder ++ '/' :: numberedPlace name j) = false) :
    d.fileExists (folder ++ '/' :: numberedPlace name k) = false := by
  obtain ⟨j, hj, hfree⟩ := hfree
  have htaken := h.taken
  have hend := h.free
  simp only [printedPlace_numbered hf hs] at htaken hend
  by_cases hk : k < 9999
  · exact hend hk
  · have hle : k ≤ j := by
      by_contra hlt
      rw [htaken j (by omega)] at hfree
      cases hfree
    have hbound := h.bound
    obtain rfl : j = k := by omega
    exact hfree

theorem numberedPlace_eq {d : Disk} {folder name : Str} {k : Nat}
    (hname : name ≠ [] ∨ d.fileExists (folder ++ "/0_.".toList) = true)
    (hfree : d.fileExists (folder ++ '/' :: numberedPlace name k) = false) : numberedPlace name k = numbered 0 k name := by
  refine if_neg fun h => ?_
  obtain ⟨hnil, rfl⟩ := h
  rw [numberedPlace, if_pos ⟨hnil, rfl⟩] at hfree
  rcases hname with hne | htaken
  · exact hne hnil
  · exact Bool.noConfusion (hfree.symm.trans htaken)

theorem valid_numbered (k : Nat) : ∀ (i : Nat) (name : Str), Go.valid (numbered i k name) = true ↔ Go.valid name = true := by
  have hone : ∀ (i : Nat) (name : Str), Go.valid (Go.itoa i ++ '_' :: name) = true ↔ Go.valid name = true := fun i name =>
    (Go.valid_append (by decide) _ _).trans (and_iff_right (Go.valid_itoa i))
  induction k with
  | zero => exact hone
  | succ k ih => exact fun i name => (ih (i + 1) _).trans (hone i name)

end

/-- What is asked of an upload to a name that is taken: a number is free, and it gets into the
    record, or the record is not needed, or leads to the same bytes as it is. -/
structure TakenRight (s : Server) (header : FileHeader) (data : Str) (fi : FileInfo) (w : UploadDraw) : Prop where
  free : ∃ k < 10000, (withFolder s.disk (uploadFolder E c fi w.now)).fileExists
    (uploadFolder E c fi w.now ++ '/' :: numberedPlace (uploadName c header) k) = false
  unnamed : uploadReName E c header fi w.uuid = [] → uploadName c header ≠ [] ∨
    (withFolder s.disk (uploadFolder E c fi w.now)).fileExists (uploadFolder E c fi w.now ++ "/0_.".toList) = true
  named : uploadReName E c header fi w.uuid ≠ [] →
    (∃ v, s.distinctRecord c (fileSum E c data) = some v ∧
      getFilePathByInfo c v = uploadFolder E c fi w.now ++ '/' :: uploadReName E c header fi w.uuid) ∨
    s.distinctRecord c (fileSum E c data) = none ∧ merges c data.length = false ∧
      (withFolder s.disk (uploadFolder E c fi w.now)).read
        (uploadFolder E c fi w.now ++ '/' :: uploadReName E c header fi w.uuid) = some data

/-- What is asked of a file to be uploaded, on the node `s` before: no `%` in the folder, a place
    that the record leads to, and a path that can be stored if it is. -/
structure PlainUpload (s : Server) (header : FileHeader) (data : Str) (fi : FileInfo) (w : UploadDraw) : Prop where
  folder : PlainFolder E c fi w
  taken : Numbered E c s header fi w → TakenRight E c s header data fi w
  legible : s.distinctRecord c (fileSum E c data) = none → merges c data.length = false →
    Go.valid (Go.replaceFirst c.dockerDir [] (uploadFolder E c fi w.now)) = true ∧ Go.valid (askedName E c header fi w) = true

section
variable {E c}

theorem withFolder_grow (d : Disk) (folder : Str) : d.Grow (withFolder d folder) := by
  unfold withFolder
  split
  · exact .refl d
  · exact d.mkdirAll_grow _

/-- The record of a new file leads to it, or to the bytes of a record that makes it superfluous, or
    to a file that has its bytes. -/
inductive LeadsRight (E : Env) (c : Config) (s : Server) (d' : Disk) (data : Str) (fi' : FileInfo) (l : Loc) : Prop
  | new : d'.locate (getFilePathByInfo c fi') = some l → LeadsRight E c s d' data fi' l
  | known (v : FileInfo) : s.distinctRecord c (fileSum E c data) = some v →
      getFilePathByInfo c fi' = getFilePathByInfo c v → LeadsRight E c s d' data fi' l
  | already : s.distinctRecord c (fileSum E c data) = none → merges c data.length = false →
      d'.read (getFilePathByInfo c fi') = some data → LeadsRight E c s d' data fi' l

/-- The record of a file written at `l`, which was free. -/
structure Written (E : Env) (c : Config) (s : Server) (d' : Disk) (data : Str) (fi fi' : FileInfo) (l : Loc) : Prop where
  fresh : ∃ d0, s.disk.Grow d0 ∧ d0.node l = none ∧ ∃ t, d' = d0.put l (.file data t)
  leads : LeadsRight E c s d' data fi' l
  legible : s.distinctRecord c (fileSum E c data) = none → merges c data.length = false → fi'.Legible
  md5 : fi'.md5 = fileSum E c data
  size : fi'.size = data.length
  offSet : fi'.offSet = fi.offSet
  timeStamp : fi'.timeStamp = fi.timeStamp

theorem create_new_read {d d' : Disk} {p q data x : Str} {now : Int} (hfree : d.fileExists p = false)
    (h : d.create p data now = some d') (hx : d.read q = some x) : d'.read q = some x := by
  obtain ⟨l, -, hn, rfl⟩ := Disk.create_new hfree h
  exact (Disk.Grow.put_new hn _).read hx

/-- The place of a plain upload is free, and its record is right. -/
theorem PlainUpload.place {s : Server} {header : FileHeader} {data : Str} {fi : FileInfo} {w : UploadDraw}
    (h : PlainUpload E c s header data fi w) (hdist : c.enableDistinctFile = true) :
    let folder := uploadFolder E c fi w.now
    let d := withFolder s.disk folder
    let reName := uploadReName E c header fi w.uuid
    let place := uploadPlace c d folder (uploadName c header) reName
    let p := folder ++ '/' :: (if reName = [] then place.2 else reName)
    d.fileExists place.1 = false ∧
      (Go.valid (askedName E c header fi w) = true → Go.valid (if reName = [] then place.2 else reName) = true) ∧
      (place.1 = p ∨ (∃ v, s.distinctRecord c (fileSum E c data) = some v ∧ p = getFilePathByInfo c v) ∨
        s.distinctRecord c (fileSum E c data) = none ∧ merges c data.length = false ∧ d.read p = some data) := by
  intro folder d reName place p
  have hf : '%' ∉ folder := h.folder.2
  have hs := slash_notMem_uploadName c header
  have hplaces := uploadPlace_cases hdist d reName hf hs
  rcases hplaces with ⟨hfree, hplace⟩ | ⟨htaken, k, hk, hplace⟩
  · have hplace' : place = _ := hplace
    refine ⟨by rw [hplace']; exact hfree, ?_, Or.inl ?_⟩
    · rw [hplace']
      exact id
    · rw [hplace']
      simp only [p, hplace']
  · have hplace' : place = _ := hplace
    have hright := h.taken ⟨htaken, hdist⟩
    have hfree := hk.place_free hf hs hright.free
    refine ⟨by rw [hplace']; exact hfree, ?_, ?_⟩
    · rw [hplace', askedName]
      by_cases hre : reName = []
      · rw [if_pos hre, if_pos hre]
        exact (valid_numbered k 0 _).mpr
      · rw [if_neg hre, if_neg hre]
        exact id
    · by_cases hre : reName = []
      · refine Or.inl ?_
        simp only [p, if_pos hre, hplace']
        rw [numberedPlace_eq (hright.unnamed hre) hfree]
      · have hp : p = folder ++ '/' :: reName := by simp only [p, if_neg hre]
        rw [hp]
        refine Or.inr ((hright.named hre).imp_left fun hv => ?_)
        obtain ⟨v, hv, hpath⟩ := hv
        exact ⟨v, hv, hpath.symm⟩

/-- Everything `SaveUploadFile` can do to files that are there: nothing. -/
theorem saveUploadFile_cases (hdist : c.enableDistinctFile = true) {s : Server} {header : FileHeader} {data : Str}
    {fi : FileInfo} {w : UploadDraw} (h : PlainUpload E c s header data fi w) :
    (∃ msg d', saveUploadFile E c s header data fi w = (.error msg, d') ∧ s.disk.Grow d') ∨
    (∃ fi' d' l, saveUploadFile E c s header data fi w = (.ok fi', d') ∧ Written E c s d' data fi fi' l) := by
  have hgrow := withFolder_grow s.disk (uploadFolder E c fi w.now)
  unfold saveUploadFile
  dsimp only
  split
  · exact Or.inl ⟨_, _, rfl, .refl _⟩
  obtain ⟨hfree, hvalid, hleads⟩ := h.place hdist
  split
  · exact Or.inl ⟨_, _, rfl, hgrow⟩
  · rename_i d' hcreate
    obtain ⟨l, hl, hn, hd'⟩ := Disk.create_new hfree hcreate
    have hput := hgrow.trans (Disk.Grow.put_new hn (.file (ioCopy data false w.failAfter).1 w.now))
    split
    · exact Or.inl ⟨_, _, rfl, hd' ▸ hput⟩
    split
    · exact Or.inl ⟨_, _, rfl, hd' ▸ hput⟩
    · rename_i hok _
      have hdata := ioCopy_ended (by simpa using hok)
      rw [hdata] at hd' hcreate ⊢
      refine Or.inr ⟨_, d', l, rfl, ⟨_, hgrow, hn, _, hd'⟩, ?_, fun hnone hm => ?_, rfl, rfl, rfl, rfl⟩
      · -- the record's path is the folder and the name in it
        have hpath : ∀ u : FileInfo, u.path = Go.replaceFirst c.dockerDir [] (uploadFolder E c fi w.now) →
            getFilePathByInfo c u = uploadFolder E c fi w.now ++ '/' :: u.outname := by
          intro u hu
          rw [getFilePathByInfo, FileInfo.fullpath, hu, ← List.append_assoc, dockerDir_folder E c h.folder.1]
        rcases hleads with hnew | ⟨v, hv, hp⟩ | ⟨hnone, hm, hread⟩
        · refine .new ?_
          rw [hpath _ rfl, FileInfo.outname, ← hnew, hd', Disk.locate_put (by rw [hn]; simp)]
          exact hl
        · refine .known v hv ?_
          rw [hpath _ rfl, FileInfo.outname]
          exact hp
        · refine .already hnone hm ?_
          rw [hpath _ rfl, FileInfo.outname]
          exact create_new_read hfree hcreate hread
      · obtain ⟨hfolder, hasked⟩ := h.legible hnone hm
        exact ⟨hfolder, hvalid hasked⟩

/-! ## What an upload does -/

/-- A merged upload does not draw a pack that is the file at `q`. -/
def PackApart (E : Env) (c : Config) (s : Server) (r : UploadRequest) (w : UploadDraw) (q : Str) : Prop :=
  ∀ header data fi, uploadForm E c r w.stamp = .ok (header, data, fi) → merges c data.length = true →
    let d := withLargeDir c (saveUploadFile E c s header data fi w).2
    ∀ l, d.locate q = some l → d.locate (packPath c (Go.itoa w.small.pack)) ≠ some l

/-- The files of `s` read on `d` what they read. -/
def KeepsFiles (E : Env) (c : Config) (s : Server) (r : UploadRequest) (w : UploadDraw) (d : Disk) : Prop :=
  ∀ q x, s.disk.read q = some x → PackApart E c s r w q → d.read q = some x

/-- The record of an upload, on the disk `d` after it: that of a merged file, or of a new
    file with the bytes sent. -/
structure UploadRecord (E : Env) (c : Config) (w : UploadDraw) (data : Str) (d : Disk) (fi : FileInfo) : Prop where
  md5 : fi.md5 = fileSum E c data
  md5_ne : fi.md5 ≠ []
  timeStamp : fi.timeStamp = w.stamp
  merged : merges c data.length = true → 0 ≤ fi.offSet
  normal : merges c data.length = false → fi.offSet = -1 ∧ fi.size = data.length ∧ fi.Legible ∧
    d.read (getFilePathByInfo c fi) = some data

/-- Everything an upload can do. -/
inductive UploadOutcome (E : Env) (c : Config) (s : Server) (r : UploadRequest) (w : UploadDraw) : UploadEnd × Server → Prop
  | refused (msg : Str) (d : Disk) : KeepsFiles E c s r w d → UploadOutcome E c s r w (.refused msg, { s with disk := d })
  | known (header : FileHeader) (data : Str) (v : FileInfo) (result : FileResult) (d : Disk) (domain : Str) :
      r.file = .ok (header, data) → s.getFileInfoFromLevelDB (fileSum E c data) = some v → v.md5 ≠ [] →
      KeepsFiles E c s r w d → UploadOutcome E c s r w (.known v result, { s with disk := d, downloadDomain := domain })
  | recorded (header : FileHeader) (data : Str) (fi : FileInfo) (e : UploadEnd) (d : Disk) (domain : Str) :
      r.file = .ok (header, data) → s.distinctRecord c (fileSum E c data) = none →
      e.recorded = some fi → (e.answered = some fi ∨ e.answered = none) →
      UploadRecord E c w data d fi → KeepsFiles E c s r w d →
      UploadOutcome E c s r w
        (e, { { s with disk := d }.saveFileMd5Log E fi CONST_FILE_Md5_FILE_NAME with downloadDomain := domain })

section
variable {s : Server} {d' : Disk} {data : Str} {fi fi' : FileInfo} {l : Loc}

theorem Written.keeps (h : Written E c s d' data fi fi' l) {q x : Str} (hx : s.disk.read q = some x) :
    d'.read q = some x ∧ d'.locate q ≠ some l := by
  obtain ⟨d0, hg, hn, t, rfl⟩ := h.fresh
  obtain ⟨k, u, hk, hkn⟩ := Disk.read_eq_some.mp (hg.read hx)
  have hne : k ≠ l := by
    intro e
    subst e
    rw [hn] at hkn
    cases hkn
  have hdir : d0.node l ≠ some .dir := by rw [hn]; simp
  rw [Disk.read_put hdir, Disk.locate_put hdir, hk, if_neg (by simpa using hne)]
  exact ⟨hg.read hx, by simpa using hne⟩

theorem Written.read_at (h : Written E c s d' data fi fi' l) {p : Str} (hp : d'.locate p = some l) : d'.read p = some data := by
  obtain ⟨d0, _, hn, t, rfl⟩ := h.fresh
  refine Disk.read_eq_some.mpr ⟨l, t, hp, ?_⟩
  rw [Disk.node_put (Disk.ne_root_of_node (by rw [hn]; simp)), if_pos rfl]

/-- A record that is needed leads to the file, or to its bytes if it stays by itself. -/
theorem Written.path (h : Written E c s d' data fi fi' l) (hnone : s.distinctRecord c (fileSum E c data) = none)
    (hm : merges c data.length = true) : d'.locate (getFilePathByInfo c fi') = some l := by
  rcases h.leads with hp | ⟨v, hv, -⟩ | ⟨-, hn, -⟩
  · exact hp
  · rw [hnone] at hv
    cases hv
  · rw [hm] at hn
    cases hn

theorem Written.read (h : Written E c s d' data fi fi' l) (hnone : s.distinctRecord c (fileSum E c data) = none) :
    d'.read (getFilePathByInfo c fi') = some data := by
  rcases h.leads with hp | ⟨v, hv, -⟩ | ⟨-, -, hread⟩
  · exact h.read_at hp
  · rw [hnone] at hv
    cases hv
  · exact hread

theorem Written.remove (h : Written E c s d' data fi fi' l) {v : FileInfo}
    (hv : s.distinctRecord c (fileSum E c data) = some v) (hpath : getFilePathByInfo c fi' ≠ getFilePathByInfo c v)
    {q x : Str} (hx : s.disk.read q = some x) : ((d'.remove (getFilePathByInfo c fi')).getD d').read q = some x := by
  have hp : d'.locate (getFilePathByInfo c fi') = some l := by
    rcases h.leads with hp | ⟨u, hu, hsame⟩ | ⟨hnone, -, -⟩
    · exact hp
    · obtain rfl := Option.some.inj (hv.symm.trans hu)
      exact absurd hsame hpath
    · rw [hnone] at hv
      cases hv
  obtain ⟨hq, hl⟩ := h.keeps hx
  rw [Disk.read_remove (h.read_at hp), hq]
  intro k hk
  rw [hp] at hk
  rw [← Option.some.inj hk]
  exact hl

theorem Written.merge (h : Written E c s d' data fi fi' l) (hp : d'.locate (getFilePathByInfo c fi') = some l)
    {q x : Str} (hx : s.disk.read q = some x) {w : Draw}
    (hapart : ∀ k, (withLargeDir c d').locate q = some k → (withLargeDir c d').locate (packPath c (Go.itoa w.pack)) ≠ some k) :
    (saveSmallFile c d' fi' w).2.read q = some x := by
  obtain ⟨hq, hl⟩ := h.keeps hx
  refine saveSmallFile_frame c hq (fun k hk hk' => ?_) hapart
  have hpath := (withLargeDir_grow c d').locate hp
  rw [hk'] at hpath
  obtain ⟨m, t, hm, _⟩ := Disk.read_eq_some.mp hq
  have hm' := (withLargeDir_grow c d').locate hm
  rw [hk] at hm'
  exact hl (hm.trans (hm'.symm.trans hpath))

end

theorem upload_outcome (hdist : c.enableDistinctFile = true) {s : Server} {r : UploadRequest} {w : UploadDraw}
    (h : ∀ header data fi, uploadForm E c r w.stamp = .ok (header, data, fi) → PlainUpload E c s header data fi w) :
    UploadOutcome E c s r w (s.upload E c r w) := by
  unfold Server.upload
  cases hform : uploadForm E c r w.stamp with
  | error msg => exact .refused msg s.disk fun _ _ hx _ => hx
  | ok f =>
    obtain ⟨header, data, fi⟩ := f
    dsimp only
    obtain ⟨hfile, hfi⟩ := uploadForm_ok E c hform
    rcases saveUploadFile_cases hdist (h header data fi hform) with
      ⟨msg, d, hsave, hg⟩ | ⟨fi', d, l, hsave, hw⟩
    · rw [hsave]
      exact .refused msg d fun _ _ hx _ => hg.read hx
    rw [hsave]
    dsimp only
    unfold Server.recordUpload
    have hkeeps : KeepsFiles E c s r w d := fun _ _ hx _ => (hw.keeps hx).1
    have hmd5 : fi'.md5 = fileSum E c data := hw.md5
    cases hv : Server.distinctRecord c { s with disk := d } fi'.md5 with
    | some v =>
      dsimp only
      have hget : s.getFileInfoFromLevelDB (fileSum E c data) = some v ∧ v.md5 ≠ [] := by
        simp only [Server.distinctRecord, hdist, if_true, Option.filter_eq_some_iff, decide_eq_true_eq] at hv
        exact ⟨hmd5 ▸ hv.1, hv.2⟩
      split
      · rename_i hpath
        exact .known header data v _ _ _ hfile hget.1 hget.2 fun q x hx _ => hw.remove (hmd5 ▸ hv) hpath hx
      · exact .known header data v _ _ _ hfile hget.1 hget.2 hkeeps
    | none =>
      dsimp only
      have hnone : s.distinctRecord c (fileSum E c data) = none := hmd5 ▸ hv
      split
      · exact .refused _ d hkeeps
      rename_i hne
      split
      · exact .refused _ d hkeeps
      by_cases hm : merges c fi'.size = true
      · -- a merged file: the pack drawn grows and the new file goes
        rw [if_pos hm]
        have hmdata : merges c data.length = true := hw.size ▸ hm
        have hsmall : KeepsFiles E c s r w (saveSmallFile c d fi' w.small).2 := by
          intro q x hx hq
          have hapart := hq header data fi hform hmdata
          rw [hsave] at hapart
          exact hw.merge (hw.path hnone hmdata) hx hapart
        cases hs : saveSmallFile c d fi' w.small with
        | mk o d' =>
          rw [hs] at hsmall
          cases o with
          | none => exact .refused _ d' hsmall
          | some fi'' =>
            obtain ⟨offset, rfl⟩ := saveSmallFile_info c (hw.read hnone) (by rw [hs])
            have hrec : UploadRecord E c w data d' (mergedInfo c fi' w.small.pack offset) :=
              ⟨hmd5, hne, by rw [mergedInfo, hw.timeStamp, hfi]; rfl, fun _ => Int.natCast_nonneg offset,
                fun hn => by rw [hmdata] at hn; cases hn⟩
            dsimp only
            split
            · exact .recorded header data _ (.empty _) d' _ hfile hnone rfl (Or.inr rfl) hrec hsmall
            · exact .recorded header data _ (.stored _ _) d' _ hfile hnone rfl (Or.inl rfl) hrec hsmall
      · rw [if_neg hm]
        have hmdata : ¬ merges c data.length = true := hw.size ▸ hm
        have hrec : UploadRecord E c w data d fi' :=
          ⟨hmd5, hne, by rw [hw.timeStamp, hfi]; rfl, fun h => absurd h hmdata,
            fun hn => ⟨by rw [hw.offSet, hfi]; rfl, hw.size, hw.legible hnone hn, hw.read hnone⟩⟩
        dsimp only
        split
        · exact .recorded header data _ (.empty _) d _ hfile hnone rfl (Or.inr rfl) hrec hkeeps
        · exact .recorded header data _ (.stored _ _) d _ hfile hnone rfl (Or.inl rfl) hrec hkeeps

theorem saveUploadFile_eq_ok {s : Server} {header : FileHeader} {data : Str} {fi fi' : FileInfo} {w : UploadDraw} {d' : Disk}
    (h : saveUploadFile E c s header data fi w = (.ok fi', d')) :
    let folder := uploadFolder E c fi w.now
    let place := uploadPlace c (withFolder s.disk folder) folder (uploadName c header) (uploadReName E c header fi w.uuid)
    ioCopy data false w.failAfter = (data, true) ∧ (data.length : Int) = header.size ∧
      (withFolder s.disk folder).create place.1 data w.now = some d' ∧
      fi' = { fi with
        name := place.2, reName := uploadReName E c header fi w.uuid, size := data.length, md5 := fileSum E c data
        path := Go.replaceFirst c.dockerDir [] folder, peers := fi.peers ++ [s.host] } := by
  unfold saveUploadFile at h
  dsimp only at h ⊢
  split at h
  · cases h
  split at h
  · cases h
  rename_i hcreate
  split at h
  · cases h
  rename_i hcopied
  have hended : (ioCopy data false w.failAfter).2 = true := by simpa using hcopied
  have hdata := ioCopy_ended hended
  split at h
  · cases h
  rename_i hsize
  rw [hdata] at hsize hcreate
  cases h
  exact ⟨Prod.ext hdata hended, not_not.mp hsize, hcreate, by rw [hdata]⟩

theorem saveUploadFile_size {s : Server} {header : FileHeader} {data : Str} {fi fi' : FileInfo} {w : UploadDraw} {d : Disk}
    (h : saveUploadFile E c s header data fi w = (.ok fi', d)) : 0 ≤ fi'.size := by
  obtain ⟨-, -, -, rfl⟩ := saveUploadFile_eq_ok h
  exact Int.natCast_nonneg _

/-- Everything an upload does to the databases: nothing, or one record whose digest had none. -/
theorem upload_databases (s : Server) (r : UploadRequest) (w : UploadDraw) :
    (∃ d domain, (s.upload E c r w).1.recorded = none ∧
      (s.upload E c r w).2 = { s with disk := d, downloadDomain := domain }) ∨
    ∃ fi d domain, (s.upload E c r w).1.recorded = some fi ∧ fi.md5 ≠ [] ∧ 0 ≤ fi.size ∧
      s.distinctRecord c fi.md5 = none ∧
      (s.upload E c r w).2 =
        { { s with disk := d }.saveFileMd5Log E fi CONST_FILE_Md5_FILE_NAME with downloadDomain := domain } := by
  unfold Server.upload
  split
  · exact Or.inl ⟨_, _, rfl, rfl⟩
  split
  · exact Or.inl ⟨_, _, rfl, rfl⟩
  rename_i fi' d hsave
  have hsize : 0 ≤ fi'.size := saveUploadFile_size hsave
  unfold Server.recordUpload
  split
  · dsimp only
    split
    · exact Or.inl ⟨_, _, rfl, rfl⟩
    · exact Or.inl ⟨_, _, rfl, rfl⟩
  rename_i hnone
  split
  · exact Or.inl ⟨_, _, rfl, rfl⟩
  rename_i hne
  split
  · exact Or.inl ⟨_, _, rfl, rfl⟩
  dsimp only
  split
  · exact Or.inl ⟨_, _, rfl, rfl⟩
  rename_i fi'' d' hmerge
  have hsame : fi''.md5 = fi'.md5 ∧ 0 ≤ fi''.size := by
    split at hmerge
    · exact saveSmallFile_signed c (by rw [hmerge]) hsize
    · cases hmerge
      exact ⟨rfl, hsize⟩
  refine Or.inr ⟨fi'', d', ?_⟩
  have hrest : fi''.md5 ≠ [] ∧ 0 ≤ fi''.size ∧ s.distinctRecord c fi''.md5 = none := by
    rw [hsame.1]
    exact ⟨hne, hsame.2, hnone⟩
  split
  · exact ⟨_, rfl, hrest.1, hrest.2.1, hrest.2.2, rfl⟩
  · exact ⟨_, rfl, hrest.1, hrest.2.1, hrest.2.2, rfl⟩

end

end GoFastdfs
