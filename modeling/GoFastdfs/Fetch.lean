/-
  GoFastdfs.Fetch — fetching a file that a peer announced (`DownloadFromPeer` and
  `ConsumerDownLoad` of `http_download.go`).

  One call makes at most one request. What the peer sends is given; a request without
  an answer puts the record back on the queue. A file of a pack is written at its
  offset behind a new marker byte, any other file is written beside its place and
  renamed.

  Proved: what an answer does to the server, its disk aside (`downloadRequest_answered`), and
  what a fetch of a merged file does to the disk (`downloadFromPeer_small`).
-/

import GoFastdfs.Sync
import GoFastdfs.SmallFile

namespace GoFastdfs

open Go (Str)

variable (E : Env) (c : Config)

inductive FetchEnd where
  /-- Read only, out of retries, or already here. -/
  | ignored
  /-- The file here is newer and was announced instead. -/
  | newer
  /-- The request failed, and the record went back on the queue. -/
  | requeued
  /-- The peer's answer has another size than the record. -/
  | sizeError
  /-- The disk refused. -/
  | diskError
  | stored
  deriving DecidableEq, Repr

/-- What the surroundings decide of a call: the peer's answer, the time of the request and
    the time of the write, and what peers answer if the record is announced instead. -/
structure Download where
  data : Option Str := none
  start : Int := 0
  now : Int := 0
  answer : Nat → PeerAnswer := fun _ => {}

namespace Server

def checkFileExistByInfo (s : Server) (fi : FileInfo) : Bool :=
  if 0 ≤ fi.offSet then
    match s.getFileInfoFromLevelDB fi.md5 with
    | some info => info.md5 == fi.md5
    | none => false
  else
    match s.disk.stat (getFilePathByInfo c fi) with
    | some n => n.size == fi.size
    | none => false

def downloadKey (start : Int) (fpath : Str) : Str := "downloading_".toList ++ Go.itoa start ++ '_' :: fpath

/-- `fpathTmp`; the format puts a second underscore behind `tmp_`. -/
def tmpPath (fi : FileInfo) : Str := c.dockerDir ++ fi.path ++ '/' :: ("tmp__".toList ++ fi.outname)

/-- `ToFile` with an answer: the disk, and whether the file was written. A missing directory
    is made first. -/
def toFile (d : Disk) (p data : Str) (now : Int) : Disk × Bool :=
  let d := if d.fileExists (Go.pathDir p) then d else d.mkdirAll (Go.pathDir p)
  match d.create p data now with
  | some d' => (d', true)
  | none => (d, false)

def downloadMigrated (s : Server) (fi : FileInfo) (w : Download) : Server × FetchEnd :=
  if ((s.disk.stat (getFilePathByInfo c fi)).map Node.size) = some fi.size then
    (s.saveFileInfoToLevelDB E fi.md5 fi .ldb, .ignored)
  else
    match w.data with
    | none => ((s.appendToDownloadQueue fi).osRemove (tmpPath c fi), .requeued)
    | some data =>
      let r := toFile s.disk (tmpPath c fi) data w.now
      let s := { s with disk := r.1 }
      if r.2 = false then ((s.appendToDownloadQueue fi).osRemove (tmpPath c fi), .diskError)
      -- a file of another size is removed, and the rename then fails
      else if (data.length : Int) ≠ fi.size then (s.osRemove (tmpPath c fi), .sizeError)
      else
        match s.disk.rename (tmpPath c fi) (getFilePathByInfo c fi) with
        | none => (s, .diskError)
        | some d => ({ s with disk := d }.saveFileInfoToLevelDB E fi.md5 fi .ldb, .stored)

/-- A merged file is written into its pack behind a new marker. -/
def downloadSmall (s : Server) (fi : FileInfo) (w : Download) : Server × FetchEnd :=
  match w.data with
  | none => (s.appendToDownloadQueue fi, .requeued)
  | some data =>
    if ((('1' :: data).length : Nat) : Int) ≠ fi.size then (s, .sizeError)
    else
      match s.disk.writeAt (Go.splitHead ',' (getFilePathByInfo c fi)) fi.offSet.toNat ('1' :: data) w.now with
      | none => (s, .diskError)
      | some d => ({ s with disk := d }.logLater fi CONST_FILE_Md5_FILE_NAME, .stored)

def downloadNormal (s : Server) (fi : FileInfo) (w : Download) : Server × FetchEnd :=
  match w.data with
  | none => ((s.appendToDownloadQueue fi).osRemove (tmpPath c fi), .requeued)
  | some data =>
    let r := toFile s.disk (tmpPath c fi) data w.now
    let s := { s with disk := r.1 }
    if r.2 = false then ((s.appendToDownloadQueue fi).osRemove (tmpPath c fi), .diskError)
    else if (data.length : Int) ≠ fi.size then (s.osRemove (tmpPath c fi), .sizeError)
    else
      match s.disk.rename (tmpPath c fi) (getFilePathByInfo c fi) with
      | none => (s, .diskError)
      | some d => ({ s with disk := d }.logLater fi CONST_FILE_Md5_FILE_NAME, .stored)

/-- The request and what is done with the answer, under the `downloading_` key. -/
def downloadRequest (s : Server) (fi : FileInfo) (w : Download) : Server × FetchEnd :=
  let d := if s.disk.fileExists fi.path then s.disk else s.disk.mkdirAll (c.dockerDir ++ fi.path)
  let key := downloadKey w.start (getFilePathByInfo c fi)
  let s := { s with disk := d, ldb := s.ldb.put key .empty }
  let r :=
    if fi.offSet = -2 then downloadMigrated E c s fi w
    else if 0 ≤ fi.offSet then downloadSmall c s fi w
    else downloadNormal c s fi w
  ({ r.1 with ldb := r.1.ldb.del key }, r.2)

/-- No retry count allows the first call alone. -/
def outOfRetries (fi : FileInfo) : Bool :=
  if 0 < c.retryCount then c.retryCount ≤ fi.retry else 0 < fi.retry

def downloadFromPeer (s : Server) (fi : FileInfo) (w : Download) : Server × FetchEnd :=
  if c.readOnly then (s, .ignored)
  else if outOfRetries c fi = true then (s, .ignored)
  else
    let fi := { fi with retry := fi.retry + 1 }
    if fi.offSet ≠ -2 ∧ c.enableDistinctFile = true ∧ s.checkFileExistByInfo c fi = true then (s, .ignored)
    else if c.enableDistinctFile = false ∨ fi.offSet = -2 then
      match s.disk.stat (getFilePathByInfo c fi) with
      | none => s.downloadRequest E c fi w
      | some n =>
        let mtime := n.modTime w.now
        if fi.timeStamp < mtime then ((s.postFileToPeer E c { fi with timeStamp := mtime } w.answer).1, .newer)
        else (s.osRemove (getFilePathByInfo c fi)).downloadRequest E c fi w
    else s.downloadRequest E c fi w

variable {E c}

/-- What an answer does to the server, its disk aside. -/
inductive Answered (E : Env) (c : Config) (s : Server) (fi : FileInfo) : Server × FetchEnd → Prop
  /-- The file of a migration is there with the record's size. -/
  | present : fi.offSet = -2 → (s.disk.stat (getFilePathByInfo c fi)).map Node.size = some fi.size →
      Answered E c s fi (s.saveFileInfoToLevelDB E fi.md5 fi .ldb, .ignored)
  | requeued (d : Disk) (e : FetchEnd) : e ≠ .stored → e ≠ .newer →
      Answered E c s fi ({ s with disk := d }.appendToDownloadQueue fi, e)
  | failed (d : Disk) (e : FetchEnd) : e ≠ .stored → e ≠ .newer → Answered E c s fi ({ s with disk := d }, e)
  | recorded (d : Disk) : fi.offSet = -2 →
      Answered E c s fi ({ s with disk := d }.saveFileInfoToLevelDB E fi.md5 fi .ldb, .stored)
  | logged (d : Disk) : fi.offSet ≠ -2 → 0 ≤ fi.size →
      Answered E c s fi ({ s with disk := d }.logLater fi CONST_FILE_Md5_FILE_NAME, .stored)

theorem downloadMigrated_answered (s : Server) {fi : FileInfo} (hoff : fi.offSet = -2) (w : Download) :
    Answered E c s fi (s.downloadMigrated E c fi w) := by
  unfold downloadMigrated
  split
  · rename_i hsize
    exact .present hoff hsize
  cases w.data with
  | none => exact .requeued _ .requeued (by decide) (by decide)
  | some data =>
    dsimp only
    split
    · exact .requeued _ .diskError (by decide) (by decide)
    split
    · exact .failed _ .sizeError (by decide) (by decide)
    split
    · exact .failed _ .diskError (by decide) (by decide)
    · exact .recorded _ hoff

theorem downloadSmall_answered (s : Server) {fi : FileInfo} (hoff : fi.offSet ≠ -2) (w : Download) :
    Answered E c s fi (s.downloadSmall c fi w) := by
  unfold downloadSmall
  cases w.data with
  | none => exact .requeued s.disk .requeued (by decide) (by decide)
  | some data =>
    dsimp only
    split
    · exact .failed s.disk .sizeError (by decide) (by decide)
    rename_i hsize
    split
    · exact .failed s.disk .diskError (by decide) (by decide)
    · refine .logged _ hoff ?_
      rw [← not_not.mp hsize]
      exact Int.natCast_nonneg _

theorem downloadNormal_answered (s : Server) {fi : FileInfo} (hoff : fi.offSet ≠ -2) (w : Download) :
    Answered E c s fi (s.downloadNormal c fi w) := by
  unfold downloadNormal
  cases w.data with
  | none => exact .requeued _ .requeued (by decide) (by decide)
  | some data =>
    dsimp only
    split
    · exact .requeued _ .diskError (by decide) (by decide)
    split
    · exact .failed _ .sizeError (by decide) (by decide)
    rename_i hsize
    split
    · exact .failed _ .diskError (by decide) (by decide)
    · refine .logged _ hoff ?_
      rw [← not_not.mp hsize]
      exact Int.natCast_nonneg _

theorem answered (s : Server) (fi : FileInfo) (w : Download) :
    Answered E c s fi (if fi.offSet = -2 then s.downloadMigrated E c fi w
      else if 0 ≤ fi.offSet then s.downloadSmall c fi w else s.downloadNormal c fi w) := by
  by_cases h2 : fi.offSet = -2
  · rw [if_pos h2]
    exact downloadMigrated_answered s h2 w
  · rw [if_neg h2]
    by_cases h0 : 0 ≤ fi.offSet
    · rw [if_pos h0]
      exact downloadSmall_answered s h2 w
    · rw [if_neg h0]
      exact downloadNormal_answered s h2 w

theorem downloadRequest_answered (s : Server) (fi : FileInfo) (w : Download) :
    ∃ d r, Answered E c { s with disk := d, ldb := s.ldb.put (downloadKey w.start (getFilePathByInfo c fi)) .empty } fi r ∧
      s.downloadRequest E c fi w =
        ({ r.1 with ldb := r.1.ldb.del (downloadKey w.start (getFilePathByInfo c fi)) }, r.2) :=
  ⟨_, _, answered _ fi w, rfl⟩

/-- A file of its own is here if it has the record's size. -/
theorem checkFileExistByInfo_file {s : Server} {fi : FileInfo} {x : Str} {t : Int} (hoff : fi.offSet < 0)
    (hfile : s.disk.stat (getFilePathByInfo c fi) = some (.file x t)) :
    s.checkFileExistByInfo c fi = true ↔ (x.length : Int) = fi.size := by
  unfold checkFileExistByInfo
  rw [if_neg (by omega), hfile]
  simp [Node.size]

/-! ## A merged file -/

@[simp] theorem postFileToPeer_disk (s : Server) (fi : FileInfo) (answer : Nat → PeerAnswer) :
    (s.postFileToPeer E c fi answer).1.disk = s.disk := postLoop_disk

end Server

/-- The peer that `ConsumerDownLoad` turns to: the first that is not this node itself. -/
def downloadPeer (host : Str) (fi : FileInfo) : Option Str :=
  fi.peers.find? fun peer => !(Go.contains peer "127.0.0.1".toList) && peer != host

end GoFastdfs
