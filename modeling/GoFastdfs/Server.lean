/-
  GoFastdfs.Server — the data the server works on (`config.go`, `server.go` and the
  types at the top of `fileserver.go`).

  A database value is kept decoded: a leveldb entry is the record its JSON text
  decodes to, or the empty text of a `downloading_` key. Marshalling drops the two
  unexported fields and replaces stray bytes (`persist`); the text itself is in `RecordJson`.
  The configuration holds the fields the modelled functions read, with
  the package variables derived from `GO_FASTDFS_DIR`. What the model leaves to its
  surroundings is `Env`: the digests, the time zone and the check of a Google code.
-/

import GoFastdfs.Disk
import GoFastdfs.Go.Md5
import GoFastdfs.Go.Time
import GoFastdfs.Go.Utf8

namespace GoFastdfs

open Go (Str)

structure Env where
  md5 : Str → Str
  sha1 : Str → Str
  zone : Int → Int
  verifyGoogleCode : Str → Str → Int → Bool

/-- The surroundings of the runs on fixed inputs: MD5 and the time zone UTC. These runs use no
    SHA-1 and no Google code. -/
def Env.plain : Env where
  md5 := Go.md5
  sha1 := fun s => s
  zone := fun _ => 0
  verifyGoogleCode := fun _ _ _ => false

/-! ## Configuration -/

def STORE_DIR_NAME : Str := "files".toList
def LARGE_DIR_NAME : Str := "haystack".toList
def CONST_STAT_FILE_COUNT_KEY : Str := "fileCount".toList
def CONST_STAT_FILE_TOTAL_SIZE_KEY : Str := "totalSize".toList
def CONST_Md5_ERROR_FILE_NAME : Str := "errors.md5".toList
def CONST_Md5_QUEUE_FILE_NAME : Str := "queue.md5".toList
def CONST_FILE_Md5_FILE_NAME : Str := "files.md5".toList
def CONST_REMOME_Md5_FILE_NAME : Str := "removes.md5".toList
def CONST_SMALL_FILE_SIZE : Int := 1024 * 1024

structure Config where
  dockerDir : Str := []
  peers : List Str := []
  enableHttps : Bool := false
  group : Str := []
  renameFile : Bool := false
  extensions : List Str := []
  enableCustomPath : Bool := false
  scenes : List Str := []
  sceneMap : List (Str × Str) := []
  defaultScene : Str := []
  downloadUseToken : Bool := false
  downloadTokenExpire : Int := 0
  host : Str := []
  fileSumArithmetic : Str := []
  peerId : Str := []
  supportGroupManage : Bool := false
  enableMergeSmallFile : Bool := false
  enableDistinctFile : Bool := false
  readOnly : Bool := false
  enableGoogleAuth : Bool := false
  authUrl : Str := []
  enableDownloadAuth : Bool := false
  defaultDownload : Bool := false
  retryCount : Int := 0
  imageMaxWidth : Int := 0
  imageMaxHeight : Int := 0
  enableTrimFileNameSpecialChar : Bool := false

namespace Config

def STORE_DIR (c : Config) : Str := c.dockerDir ++ STORE_DIR_NAME

def LARGE_DIR (c : Config) : Str := c.STORE_DIR ++ "/haystack".toList

end Config

/-! ## Records -/

structure FileInfo where
  name : Str := []
  reName : Str := []
  path : Str := []
  md5 : Str := []
  size : Int := 0
  peers : List Str := []
  scene : Str := []
  timeStamp : Int := 0
  offSet : Int := 0
  retry : Int := 0
  op : Str := []
  deriving DecidableEq, Repr

namespace FileInfo

/-- What `json.Unmarshal` gives back for `json.Marshal` of a record: the texts with their stray
    bytes replaced. A digest is hexadecimal or came as JSON, so it has none. -/
def persist (fi : FileInfo) : FileInfo :=
  { fi with
    name := Go.repair fi.name
    reName := Go.repair fi.reName
    path := Go.repair fi.path
    peers := fi.peers.map Go.repair
    scene := Go.repair fi.scene
    retry := 0
    op := [] }

@[simp] theorem persist_md5 (fi : FileInfo) : fi.persist.md5 = fi.md5 := rfl
@[simp] theorem persist_size (fi : FileInfo) : fi.persist.size = fi.size := rfl
@[simp] theorem persist_timeStamp (fi : FileInfo) : fi.persist.timeStamp = fi.timeStamp := rfl
@[simp] theorem persist_offSet (fi : FileInfo) : fi.persist.offSet = fi.offSet := rfl
@[simp] theorem persist_path (fi : FileInfo) : fi.persist.path = Go.repair fi.path := rfl
@[simp] theorem persist_peers (fi : FileInfo) : fi.persist.peers = fi.peers.map Go.repair := rfl

@[simp] theorem persist_persist (fi : FileInfo) : fi.persist.persist = fi.persist := by
  simp [persist, Go.repair_repair]

/-- `ReName` if it is set, else `Name`: the code's `fn`, `outname` or `filename`. -/
def outname (fi : FileInfo) : Str := if fi.reName = [] then fi.name else fi.reName

/-- The path that keys a record beside its digest (`fullpath` in `saveFileMd5Log`). -/
def fullpath (fi : FileInfo) : Str := fi.path ++ '/' :: fi.outname

@[simp] theorem persist_outname (fi : FileInfo) : fi.persist.outname = Go.repair fi.outname := by
  have hname : fi.persist.reName = [] ↔ fi.reName = [] := Go.repair_eq_nil
  unfold outname
  by_cases h : fi.reName = []
  · rw [if_pos h, if_pos (hname.mpr h)]
    rfl
  · rw [if_neg h, if_neg (mt hname.mp h)]
    rfl

/-- The path of the file can be stored. -/
def Legible (fi : FileInfo) : Prop := Go.valid fi.path = true ∧ Go.valid fi.outname = true

instance (fi : FileInfo) : Decidable fi.Legible := inferInstanceAs (Decidable (_ ∧ _))

theorem legible_iff {fi : FileInfo} : fi.Legible ↔ Go.valid fi.fullpath = true := (Go.valid_append (by decide) _ _).symm

theorem persist_fullpath (fi : FileInfo) : fi.persist.fullpath = Go.repair fi.fullpath := by
  rw [fullpath, fullpath, persist_outname, persist_path, Go.repair_append (by decide)]

theorem persist_fullpath_iff (fi : FileInfo) : fi.persist.fullpath = fi.fullpath ↔ fi.Legible := by
  rw [persist_fullpath, Go.repair_eq_iff, legible_iff]

theorem Legible.fullpath {fi : FileInfo} (h : fi.Legible) : fi.persist.fullpath = fi.fullpath := (persist_fullpath_iff fi).mpr h

end FileInfo

/-- `GetFilePathByInfo(fileInfo, true)`. -/
def getFilePathByInfo (c : Config) (fi : FileInfo) : Str := c.dockerDir ++ fi.fullpath

/-! ## State -/

/-- A leveldb entry of `ldb`: a record, or the empty text of a bookkeeping key. -/
inductive Value where
  | record (fi : FileInfo)
  | empty
  deriving DecidableEq, Repr

structure FileLog where
  fileInfo : FileInfo
  fileName : Str
  deriving DecidableEq, Repr

structure Server where
  ldb : Store Str Value := ∅
  logDB : Store Str FileInfo := ∅
  statMap : Store Str Int := ∅
  disk : Disk
  queueToPeers : List FileInfo := []
  queueFromPeers : List FileInfo := []
  queueFileLog : List FileLog := []
  host : Str := []
  /-- `Config().DownloadDomain`, which `BuildFileResult` rewrites. -/
  downloadDomain : Str := []

namespace Server

def osRemove (s : Server) (p : Str) : Server := { s with disk := (s.disk.remove p).getD s.disk }

end Server

end GoFastdfs
