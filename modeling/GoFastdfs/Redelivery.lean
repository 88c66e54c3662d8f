/-
  GoFastdfs.Redelivery — a fetch that is cut off and repeated (`DownloadFromPeer` and
  `CheckFileExistByInfo`, `SaveFileMd5Log` and `ConsumerLog`, `RemoveDownloading` of
  `http_remove.go`).

  A fetch makes its file durable by a rename and its record by an entry of the log queue,
  which lives in memory until `ConsumerLog` applies it. `CrashPoint` lists the durable states
  in between: the folders as they are made, the `downloading_` key, the bytes of the temporary
  file as they come, the end of the request, and the call over with the log entries ahead
  being applied. The log consumer's turns during the call change nothing that the call reads,
  so they are taken to come first. A restart loses the queues; `RemoveDownloading` may run any
  number of times before the record is delivered again, from a peer that serves the file.

  Proved: the second delivery heals exactly if the path leads to no file of the announced size
  and the disk takes one, or leads to it and there is a record (`redelivery_heals_iff`). After
  the rename it is the record that decides (`after_the_rename_only_a_record_heals`), so an
  interruption there is never healed (`a_stored_file_stays_unrecorded`).
-/

import GoFastdfs.Held
import GoFastdfs.Runs

namespace GoFastdfs

open Go (Str)

variable (E : Env) (c : Config)

/-! ## Interruptions -/

def Disk.mkdirFirst (d : Disk) (p : Str) (n : Nat) : Disk := d.mkdirs (d.startOf p) ((p.splitOn '/').take n)

inductive CrashPoint where
  /-- Nothing is done yet. -/
  | begun
  /-- These many elements of the record's folder are there. -/
  | folder (n : Nat)
  /-- The `downloading_` key is there. -/
  | key
  /-- These many elements of the temporary file's folder are there. -/
  | tmpFolder (n : Nat)
  /-- These bytes have come. -/
  | tmp (data : Str)
  /-- The temporary file is renamed, removed or left. -/
  | asked
  /-- The call is over, and these many of the log entries ahead of its own are applied. -/
  | over (n : Nat)
  deriving DecidableEq, Repr

/-- A record as an announcement brings it: no text has the unexported fields. -/
def FileInfo.received (fi : FileInfo) : FileInfo := { fi with retry := 0, op := [] }

namespace Server

/-- The fetch of a file of its own gets to its request, with `EnableDistinctFile`. -/
def asks (s : Server) (fi : FileInfo) : Bool :=
  !c.readOnly && !outOfRetries c fi && !s.checkFileExistByInfo c fi

def cutOff (s : Server) (fi : FileInfo) (w : Download) : CrashPoint → Server
  | .over n => (consumerLog E)^[min n s.queueFileLog.length] (s.downloadFromPeer E c fi w).1
  | p =>
    if s.asks c fi = false then s else
    let d := fetchDisk c s.disk fi
    let dir := Go.pathDir (tmpPath c fi)
    match p with
    | .begun | .over _ => s
    | .folder n =>
      { s with disk := if s.disk.fileExists fi.path then s.disk else s.disk.mkdirFirst (c.dockerDir ++ fi.path) n }
    | .key => asking c s fi w
    | .tmpFolder n => { asking c s fi w with disk := if d.fileExists dir then d else d.mkdirFirst dir n }
    | .tmp data => { asking c s fi w with disk := (toFile d (tmpPath c fi) data w.now).1 }
    | .asked => ((asking c s fi w).downloadNormal c { fi with retry := fi.retry + 1 } w).1

/-- The databases and the disk are kept. -/
def restart (s : Server) : Server := { s with queueToPeers := [], queueFromPeers := [], queueFileLog := [] }

def removeDownloading (s : Server) (now : Int) : Server :=
  ((s.ldb.scan (Go.hasPrefix · "downloading_".toList)).map (·.1)).foldl (fun s key =>
    match key.splitOn '_' with
    | [_, stamp, fpath] =>
      match Go.parseInt stamp with
      | (t, true) => if 600 < now - t then s.osRemove (c.dockerDir ++ fpath) else s
      | _ => s
    | _ => s) s

def drainLog (s : Server) : Server := (consumerLog E)^[s.queueFileLog.length] s

/-- The record delivered again, as it was announced. -/
def redeliver (s : Server) (fi : FileInfo) (w : Download) : Server := (s.downloadFromPeer E c fi.received w).1.drainLog E

def recovered (s : Server) (fi : FileInfo) (w : Download) (p : CrashPoint) (turns : List Int) : Server :=
  turns.foldl (removeDownloading c) (s.cutOff E c fi w p).restart

end Server

/-- The file is at its path with the announced size, and there is a record under its digest. -/
structure Healed (fi : FileInfo) (s : Server) : Prop where
  file : ∃ data t, s.disk.stat (getFilePathByInfo c fi) = some (.file data t) ∧ (data.length : Int) = fi.size
  record : ∃ v, s.getFileInfoFromLevelDB fi.md5 = some v

/-- Once its folder is made, the temporary file and the file have a place that is no directory. -/
def Accepts (d : Disk) (fi : FileInfo) : Prop :=
  ∃ l k, (tmpDisk c d fi).locate (Server.tmpPath c fi) = some l ∧ (tmpDisk c d fi).node l ≠ some .dir ∧
    (tmpDisk c d fi).locate (getFilePathByInfo c fi) = some k ∧ (tmpDisk c d fi).node k ≠ some .dir

/-- The temporary file has no place, but with its folder made the path leads to a file of the
    announced size, and there is a record. -/
structure Uncovered (fi : FileInfo) (start : Int) (s : Server) : Prop where
  refused : ∀ l, (tmpDisk c s.disk fi).locate (Server.tmpPath c fi) = some l → (tmpDisk c s.disk fi).node l = some .dir
  file : ∃ data t, (((tmpDisk c s.disk fi).remove (Server.tmpPath c fi)).getD (tmpDisk c s.disk fi)).stat
    (getFilePathByInfo c fi) = some (.file data t) ∧ (data.length : Int) = fi.size
  record : ∃ v, s.getFileInfoFromLevelDB fi.md5 = some v
  key : fi.md5 ≠ Server.downloadKey start (getFilePathByInfo c fi)

/-! ## The request -/

section
variable {E c}

theorem toFile_placed {d : Disk} {fi : FileInfo} {data : Str} {now : Int} {l : Loc}
    (hl : (tmpDisk c d fi).locate (Server.tmpPath c fi) = some l) (hdir : (tmpDisk c d fi).node l ≠ some .dir) :
    Server.toFile (fetchDisk c d fi) (Server.tmpPath c fi) data now = ((tmpDisk c d fi).put l (.file data now), true) := by
  have hcreate : (tmpDisk c d fi).create (Server.tmpPath c fi) data now = some ((tmpDisk c d fi).put l (.file data now)) := by
    simp only [Disk.create, Disk.modify, hl]
    split
    · rename_i hn
      exact absurd hn hdir
    · rfl
    · rfl
  have hdisk : (if (fetchDisk c d fi).fileExists (Go.pathDir (Server.tmpPath c fi)) then fetchDisk c d fi
      else (fetchDisk c d fi).mkdirAll (Go.pathDir (Server.tmpPath c fi))) = tmpDisk c d fi := rfl
  simp only [Server.toFile, hdisk, hcreate]

theorem toFile_refused {d : Disk} {fi : FileInfo} (data : Str) (now : Int)
    (h : ∀ l, (tmpDisk c d fi).locate (Server.tmpPath c fi) = some l → (tmpDisk c d fi).node l = some .dir) :
    Server.toFile (fetchDisk c d fi) (Server.tmpPath c fi) data now = (tmpDisk c d fi, false) := by
  rcases toFile_cases (fetchDisk c d fi) (Server.tmpPath c fi) data now with ht | ⟨l, hl, hdir, _⟩
  · exact ht
  · exact absurd (h l hl) hdir

theorem rename_file {d : Disk} {p q : Str} {l k : Loc} {data : Str} {t : Int} (hl : d.locate p = some l)
    (hk : d.locate q = some k) (hn : d.node l = some (.file data t)) (hkdir : d.node k ≠ some .dir) :
    d.rename p q = some ((d.erase l).put k (.file data t)) := by
  simp only [Disk.rename, hl, hk, hn]

theorem askFile_accepted {d : Disk} {fi : FileInfo} {w : Download} {data : Str} (hdata : w.data = some data)
    (hsize : (data.length : Int) = fi.size) (h : Accepts c d fi) :
    (askFile c (fetchDisk c d fi) fi w).2 = .stored ∧
      (askFile c (fetchDisk c d fi) fi w).1.stat (getFilePathByInfo c fi) = some (.file data w.now) := by
  obtain ⟨l, k, hl, hdir, hk, hkdir⟩ := h
  have hnode : ((tmpDisk c d fi).put l (.file data w.now)).node k ≠ some .dir := by
    rw [Disk.node_put (Disk.ne_root_of_node hdir)]
    split
    · simp
    · exact hkdir
  have hrename := rename_file (d := (tmpDisk c d fi).put l (.file data w.now)) (by rw [Disk.locate_put hdir]; exact hl)
    (by rw [Disk.locate_put hdir]; exact hk) (by rw [Disk.node_put (Disk.ne_root_of_node hdir), if_pos rfl]) hnode
  have hend : (askFile c (fetchDisk c d fi) fi w).2 = .stored := by
    simp only [askFile, hdata, toFile_placed hl hdir, hsize, hrename, ne_eq, not_true_eq_false, if_false,
      Bool.true_eq_false]
  refine ⟨hend, ?_⟩
  have hcase := askFile_cases (c := c) (fetchDisk c d fi) fi w
  rw [hend] at hcase
  obtain ⟨data', k', hw, _, hk', hstat⟩ := hcase.stat_stored
  obtain rfl := Option.some.inj (hdata.symm.trans hw)
  exact hstat _ hk'

/-- Where the temporary file has a place and the file has none, nothing is stored. -/
theorem askFile_unplaced {d : Disk} {fi : FileInfo} {w : Download} {data : Str} {l : Loc} (hdata : w.data = some data)
    (hsize : (data.length : Int) = fi.size) (hl : (tmpDisk c d fi).locate (Server.tmpPath c fi) = some l)
    (hdir : (tmpDisk c d fi).node l ≠ some .dir) (h : ¬ Accepts c d fi) (x : Str) (t : Int) :
    (askFile c (fetchDisk c d fi) fi w).1.stat (getFilePathByInfo c fi) ≠ some (.file x t) := by
  have hrename : ((tmpDisk c d fi).put l (.file data w.now)).rename (Server.tmpPath c fi) (getFilePathByInfo c fi) = none := by
    cases hr : ((tmpDisk c d fi).put l (.file data w.now)).rename (Server.tmpPath c fi) (getFilePathByInfo c fi) with
    | none => rfl
    | some d' =>
      obtain ⟨k, hk, hkdir, _⟩ := rename_tmp hl hdir hr
      exact absurd ⟨l, k, hl, hdir, hk, hkdir⟩ h
  simp only [askFile, hdata, toFile_placed hl hdir, hsize, hrename, ne_eq, not_true_eq_false, if_false,
    Bool.true_eq_false]
  rw [Disk.stat_put hdir]
  split
  · rename_i hk
    exact absurd ⟨l, l, hl, hdir, hk, hdir⟩ h
  · intro hstat
    obtain ⟨k, hk, hn⟩ := Disk.stat_eq_some.mp hstat
    exact h ⟨l, k, hl, hdir, hk, by simp [hn]⟩

/-! ## The second delivery -/

namespace Server

theorem downloadFromPeer_ignored (hdist : c.enableDistinctFile = true) {s : Server} {fi : FileInfo} (hoff : fi.offSet = -1)
    (w : Download) (h : s.asks c fi = false) : s.downloadFromPeer E c fi w = (s, .ignored) := by
  unfold downloadFromPeer
  split
  · rfl
  rename_i hro
  split
  · rfl
  rename_i hretries
  have hcheck : s.checkFileExistByInfo c { fi with retry := fi.retry + 1 } = true := by
    have : s.checkFileExistByInfo c fi = true := by simpa [asks, hro, hretries] using h
    exact this
  have hoff' : ({ fi with retry := fi.retry + 1 } : FileInfo).offSet ≠ -2 := by
    show fi.offSet ≠ -2
    omega
  dsimp only
  rw [if_pos ⟨hoff', hdist, hcheck⟩]

theorem downloadFromPeer_asks (hdist : c.enableDistinctFile = true) {s : Server} {fi : FileInfo} (hoff : fi.offSet = -1)
    (w : Download) (h : s.asks c fi = true) :
    s.downloadFromPeer E c fi w =
      ({ ((asking c s fi w).downloadNormal c { fi with retry := fi.retry + 1 } w).1 with
          ldb := ((asking c s fi w).downloadNormal c { fi with retry := fi.retry + 1 } w).1.ldb.del
            (downloadKey w.start (getFilePathByInfo c fi)) },
        ((asking c s fi w).downloadNormal c { fi with retry := fi.retry + 1 } w).2) := by
  simp only [asks, Bool.and_eq_true, Bool.not_eq_true'] at h
  obtain ⟨⟨hro, hretries⟩, hcheck⟩ := h
  have hcheck' : s.checkFileExistByInfo c { fi with retry := fi.retry + 1 } = false := hcheck
  have hoff' : ({ fi with retry := fi.retry + 1 } : FileInfo).offSet = -1 := hoff
  unfold downloadFromPeer
  rw [if_neg (by simp [hro]), if_neg (by simp [hretries])]
  dsimp only
  rw [if_neg (by simp [hcheck']), if_neg (by simp [hdist, hoff])]
  unfold downloadRequest
  dsimp only
  rw [if_neg (by simp [hoff]), if_neg (by simp [hoff])]
  rfl

theorem downloadNormal_logs (s : Server) (fi : FileInfo) (w : Download) :
    (s.downloadNormal c fi w).1.ldb = s.ldb ∧
      (s.downloadNormal c fi w).1.queueFileLog = s.queueFileLog ++
        if (s.downloadNormal c fi w).2 = .stored then [⟨fi, CONST_FILE_Md5_FILE_NAME⟩] else [] := by
  unfold downloadNormal
  cases w.data with
  | none => exact ⟨rfl, (List.append_nil _).symm⟩
  | some data =>
    dsimp only
    split
    · exact ⟨rfl, (List.append_nil _).symm⟩
    split
    · exact ⟨rfl, (List.append_nil _).symm⟩
    split
    · exact ⟨rfl, (List.append_nil _).symm⟩
    · exact ⟨rfl, rfl⟩

theorem asks_received (hro : c.readOnly = false) (s : Server) (fi : FileInfo) :
    s.asks c fi.received = !s.checkFileExistByInfo c fi := by
  have hretries : outOfRetries c fi.received = false := by
    unfold outOfRetries FileInfo.received
    split
    · rename_i h
      simpa using h
    · rfl
  have hcheck : s.checkFileExistByInfo c fi.received = s.checkFileExistByInfo c fi := rfl
  simp only [asks, hro, hretries, hcheck, Bool.not_false, Bool.true_and]

theorem consumerLog_iterate_disk (s : Server) (n : Nat) : ((consumerLog E)^[n] s).disk = s.disk := by
  induction n generalizing s with
  | zero => rfl
  | succ n ih => rw [Function.iterate_succ_apply, ih, consumerLog_disk]

theorem drainLog_nil {s : Server} (h : s.queueFileLog = []) : s.drainLog E = s := by
  simp only [drainLog, h, List.length_nil, Function.iterate_zero, id_eq]

theorem drainLog_single {s : Server} {q : FileLog} (h : s.queueFileLog = [q]) :
    s.drainLog E = { s with queueFileLog := [] }.saveFileMd5Log E q.fileInfo q.fileName := by
  simp only [drainLog, h, List.length_singleton, Function.iterate_one, consumerLog]

end Server

theorem saved_record (s : Server) (fi : FileInfo) :
    (∃ v, (s.saveFileMd5Log E fi CONST_FILE_Md5_FILE_NAME).getFileInfoFromLevelDB fi.md5 = some v) ↔
      fi.md5 ≠ [] ∨ ∃ v, s.getFileInfoFromLevelDB fi.md5 = some v := by
  by_cases hmd5 : fi.md5 = []
  · rw [Server.saveFileMd5Log_nil E s hmd5]
    simp [hmd5]
  · simp only [hmd5, ne_eq, not_false_eq_true, true_or, iff_true]
    refine ⟨fi.persist, Server.getFileInfo_eq_some.mpr ?_⟩
    rw [Server.saveFileMd5Log_files_ldb E s hmd5, Store.get_put]
    split
    · rfl
    · exact Store.get_put_self _ _ _

theorem getFileInfo_put_del (s s' : Server) {key m : Str} (hldb : s'.ldb = (s.ldb.put key .empty).del key) :
    (∃ v, s'.getFileInfoFromLevelDB m = some v) ↔ m ≠ key ∧ ∃ v, s.getFileInfoFromLevelDB m = some v := by
  simp only [Server.getFileInfo_eq_some, hldb]
  by_cases h : m = key
  · subst h
    simp
  · rw [Store.get_del_ne _ h, Store.get_put_ne _ _ h]
    simp [h]

/-- When a second delivery heals: nothing is missing already, or nothing of the announced size is
    there and the disk takes the file. -/
inductive Heals (c : Config) (fi : FileInfo) (start : Int) (s : Server) : Prop
  | there : s.checkFileExistByInfo c fi = true → Healed c fi s → Heals c fi start s
  | stored : s.checkFileExistByInfo c fi = false → Accepts c s.disk fi →
      (fi.md5 ≠ [] ∨ ∃ v, s.getFileInfoFromLevelDB fi.md5 = some v) → Heals c fi start s
  | uncovered : s.checkFileExistByInfo c fi = false → Uncovered c fi start s → Heals c fi start s

/-- The second delivery where nothing of the announced size is there. -/
theorem downloadFromPeer_again (hdist : c.enableDistinctFile = true) (hro : c.readOnly = false) {s : Server}
    {fi : FileInfo} (hoff : fi.offSet = -1) (hqueue : s.queueFileLog = []) (w : Download)
    (hcheck : s.checkFileExistByInfo c fi = false) :
    (s.downloadFromPeer E c fi.received w).1.disk = (askFile c (fetchDisk c s.disk fi) fi w).1 ∧
    (s.downloadFromPeer E c fi.received w).1.ldb = (s.ldb.put (Server.downloadKey w.start (getFilePathByInfo c fi))
      .empty).del (Server.downloadKey w.start (getFilePathByInfo c fi)) ∧
    ∃ v : FileInfo, v.md5 = fi.md5 ∧ (s.downloadFromPeer E c fi.received w).1.queueFileLog =
      if (askFile c (fetchDisk c s.disk fi) fi w).2 = .stored then [⟨v, CONST_FILE_Md5_FILE_NAME⟩] else [] := by
  have hasks : s.asks c fi.received = true := by rw [Server.asks_received hro, hcheck]; rfl
  have hoff' : fi.received.offSet = -1 := hoff
  rw [Server.downloadFromPeer_asks hdist hoff' w hasks]
  generalize hs0 : asking c s fi.received w = s0
  have hdisk0 : s0.disk = fetchDisk c s.disk fi := by rw [← hs0]; rfl
  have hldb0 : s0.ldb = s.ldb.put (Server.downloadKey w.start (getFilePathByInfo c fi)) .empty := by rw [← hs0]; rfl
  have hqueue0 : s0.queueFileLog = [] := by rw [← hs0]; exact hqueue
  have hask := downloadNormal_asks (c := c) s0 { fi.received with retry := fi.received.retry + 1 } w
  obtain ⟨hldb, hlog⟩ := Server.downloadNormal_logs (c := c) s0 { fi.received with retry := fi.received.retry + 1 } w
  generalize s0.downloadNormal c { fi.received with retry := fi.received.retry + 1 } w = r at hask hldb hlog ⊢
  have hsame : askFile c s0.disk { fi.received with retry := fi.received.retry + 1 } w =
      askFile c (fetchDisk c s.disk fi) fi w := by rw [hdisk0]; rfl
  rw [hsame] at hask
  rw [← hask]
  refine ⟨rfl, ?_, { fi.received with retry := fi.received.retry + 1 }, rfl, ?_⟩
  · rw [hldb, hldb0]
    rfl
  · rw [hlog, hqueue0, List.nil_append]

/-- The file that is stored, and what its log entry makes of the record. -/
theorem healed_stored (hdist : c.enableDistinctFile = true) (hro : c.readOnly = false) {s : Server} {fi : FileInfo}
    (hoff : fi.offSet = -1) (hqueue : s.queueFileLog = []) {w : Download} {data : Str} (hdata : w.data = some data)
    (hsize : (data.length : Int) = fi.size) (hcheck : s.checkFileExistByInfo c fi = false) (h : Accepts c s.disk fi) :
    Healed c fi (s.redeliver E c fi w) ↔ fi.md5 ≠ [] ∨ ∃ v, s.getFileInfoFromLevelDB fi.md5 = some v := by
  obtain ⟨hend, hstat⟩ := askFile_accepted hdata hsize h
  obtain ⟨hdisk, hldb, v, hv, hlog⟩ := downloadFromPeer_again (E := E) hdist hro hoff hqueue w hcheck
  rw [if_pos hend] at hlog
  unfold Server.redeliver
  generalize (s.downloadFromPeer E c fi.received w).1 = s1 at hdisk hldb hlog ⊢
  rw [Server.drainLog_single hlog]
  dsimp only
  generalize hs2 : ({ s1 with queueFileLog := [] } : Server) = s2
  have hdisk2 : s2.disk = (askFile c (fetchDisk c s.disk fi) fi w).1 := by rw [← hs2, ← hdisk]
  have hold := getFileInfo_put_del s s2 (m := fi.md5) (by rw [← hs2, ← hldb])
  have hrecord := saved_record (E := E) s2 v
  rw [hv, hold] at hrecord
  have hkey : fi.md5 = [] → fi.md5 ≠ Server.downloadKey w.start (getFilePathByInfo c fi) := by
    intro hnil
    rw [hnil]
    exact (List.append_ne_nil_of_right_ne_nil _ (List.cons_ne_nil _ _)).symm
  constructor
  · intro hheal
    exact (hrecord.mp hheal.record).imp id And.right
  · intro hx
    refine ⟨⟨data, w.now, ?_, hsize⟩, hrecord.mpr ?_⟩
    · rw [Server.saveFileMd5Log_disk, hdisk2]
      exact hstat
    · by_cases hnil : fi.md5 = []
      · exact Or.inr ⟨hkey hnil, hx.resolve_left (not_not.mpr hnil)⟩
      · exact Or.inl hnil

/-- Where the disk does not take the file, the second delivery heals only what making the folders
    uncovers. -/
theorem healed_refused (hdist : c.enableDistinctFile = true) (hro : c.readOnly = false) {s : Server} {fi : FileInfo}
    (hoff : fi.offSet = -1) (hqueue : s.queueFileLog = []) {w : Download} {data : Str} (hdata : w.data = some data)
    (hsize : (data.length : Int) = fi.size) (hcheck : s.checkFileExistByInfo c fi = false) (h : ¬ Accepts c s.disk fi) :
    Healed c fi (s.redeliver E c fi w) ↔ Uncovered c fi w.start s := by
  obtain ⟨hdisk, hldb, v, _, hlog⟩ := downloadFromPeer_again (E := E) hdist hro hoff hqueue w hcheck
  rcases (tmpDisk c s.disk fi).placed_or_refused (Server.tmpPath c fi) with ⟨l, hl, hdir⟩ | hplace
  · have hun : ¬ Uncovered c fi w.start s := fun hun => hdir (hun.refused l hl)
    have hstat := askFile_unplaced (w := w) hdata hsize hl hdir h
    simp only [hun, iff_false]
    intro hheal
    obtain ⟨x, t, hx, _⟩ := hheal.file
    rw [Server.redeliver, Server.drainLog, Server.consumerLog_iterate_disk, hdisk] at hx
    exact hstat x t hx
  · have hask : askFile c (fetchDisk c s.disk fi) fi w =
        (((tmpDisk c s.disk fi).remove (Server.tmpPath c fi)).getD (tmpDisk c s.disk fi), .diskError) := by
      simp only [askFile, hdata, toFile_refused data w.now hplace, if_true]
    rw [hask, if_neg (by simp)] at hlog
    rw [hask] at hdisk
    unfold Server.redeliver
    generalize (s.downloadFromPeer E c fi.received w).1 = s1 at hdisk hldb hlog ⊢
    rw [Server.drainLog_nil hlog]
    have hold := getFileInfo_put_del s s1 (m := fi.md5) hldb
    dsimp only at hdisk
    constructor
    · intro hheal
      obtain ⟨hne, hrecord⟩ := hold.mp hheal.record
      exact ⟨hplace, by rw [← hdisk]; exact hheal.file, hrecord, hne⟩
    · intro hun
      exact ⟨by rw [hdisk]; exact hun.file, hold.mpr ⟨hun.key, hun.record⟩⟩

/-- A second delivery, from any state with an empty log queue. -/
theorem redeliver_iff (hdist : c.enableDistinctFile = true) (hro : c.readOnly = false) {s : Server} {fi : FileInfo}
    (hoff : fi.offSet = -1) (hqueue : s.queueFileLog = []) {w : Download} {data : Str} (hdata : w.data = some data)
    (hsize : (data.length : Int) = fi.size) : Healed c fi (s.redeliver E c fi w) ↔ Heals c fi w.start s := by
  cases hcheck : s.checkFileExistByInfo c fi with
  | true =>
    have hasks : s.asks c fi.received = false := by rw [Server.asks_received hro, hcheck]; rfl
    have hoff' : fi.received.offSet = -1 := hoff
    rw [Server.redeliver, Server.downloadFromPeer_ignored hdist hoff' w hasks, Server.drainLog_nil hqueue]
    constructor
    · exact .there hcheck
    · intro h
      cases h with
      | there _ h => exact h
      | stored h => rw [hcheck] at h; cases h
      | uncovered h => rw [hcheck] at h; cases h
  | false =>
    by_cases h : Accepts c s.disk fi
    · rw [healed_stored hdist hro hoff hqueue hdata hsize hcheck h]
      constructor
      · exact .stored hcheck h
      · intro hheals
        cases hheals with
        | there h => rw [hcheck] at h; cases h
        | stored _ _ h => exact h
        | uncovered _ hun => exact Or.inr hun.record
    · rw [healed_refused hdist hro hoff hqueue hdata hsize hcheck h]
      constructor
      · exact .uncovered hcheck
      · intro hheals
        cases hheals with
        | there h => rw [hcheck] at h; cases h
        | stored _ h' => exact absurd h' h
        | uncovered _ h => exact h

/-! ## After an interruption -/

theorem removeDownloading_queue (s : Server) (now : Int) : (s.removeDownloading c now).queueFileLog = s.queueFileLog := by
  unfold Server.removeDownloading
  generalize (s.ldb.scan (Go.hasPrefix · "downloading_".toList)).map (·.1) = keys
  induction keys generalizing s with
  | nil => rfl
  | cons key keys ih =>
    rw [List.foldl_cons, ih]
    split
    · split
      · split <;> rfl
      · rfl
    · rfl

theorem recovered_queue (s : Server) (fi : FileInfo) (w : Download) (p : CrashPoint) (turns : List Int) :
    (s.recovered E c fi w p turns).queueFileLog = [] := by
  unfold Server.recovered
  generalize hs : (s.cutOff E c fi w p).restart = s0
  have hqueue : s0.queueFileLog = [] := by rw [← hs]; rfl
  clear hs
  induction turns generalizing s0 with
  | nil => exact hqueue
  | cons now turns ih => exact ih _ (by rw [removeDownloading_queue, hqueue])

/-- A fetch is cut off anywhere between its start and the moment its log entry is applied. After
    the restart, and any turns of the removal of abandoned downloads, its record is delivered
    again, the peer serves the file, and the log queue is drained. Then the file is at its path
    with the announced size and has a record exactly if the second delivery can heal. -/
theorem redelivery_heals_iff (hdist : c.enableDistinctFile = true) (hro : c.readOnly = false) {fi : FileInfo}
    (hoff : fi.offSet = -1) (s : Server) (w : Download) (p : CrashPoint) (turns : List Int) {w' : Download} {data : Str}
    (hdata : w'.data = some data) (hsize : (data.length : Int) = fi.size) :
    Healed c fi ((s.recovered E c fi w p turns).redeliver E c fi w') ↔
      Heals c fi w'.start (s.recovered E c fi w p turns) :=
  redeliver_iff hdist hro hoff (recovered_queue s fi w p turns) hdata hsize

/-- A fetch that stores its file got to its request, and the path leads to the file. -/
theorem stored_stat (hdist : c.enableDistinctFile = true) {s : Server} {fi : FileInfo} (hoff : fi.offSet = -1)
    {w : Download} (h : (s.downloadFromPeer E c fi w).2 = .stored) :
    s.asks c fi = true ∧ ∃ data t, ((asking c s fi w).downloadNormal c { fi with retry := fi.retry + 1 } w).1.disk.stat
      (getFilePathByInfo c fi) = some (.file data t) ∧ (data.length : Int) = fi.size := by
  cases hasks : s.asks c fi with
  | false =>
    rw [Server.downloadFromPeer_ignored hdist hoff w hasks] at h
    cases h
  | true =>
    rw [Server.downloadFromPeer_asks hdist hoff w hasks] at h
    have hask := downloadNormal_asks (c := c) (asking c s fi w) { fi with retry := fi.retry + 1 } w
    have hcase := askFile_cases (c := c) (asking c s fi w).disk { fi with retry := fi.retry + 1 } w
    rw [← hask, h] at hcase
    obtain ⟨data, k, _, hsize, hk, hstat⟩ := hcase.stat_stored
    exact ⟨rfl, data, w.now, hstat _ hk, hsize⟩

/-- Once the file is stored, a second delivery finds it and does nothing. -/
theorem after_the_rename_only_a_record_heals (hdist : c.enableDistinctFile = true) (hro : c.readOnly = false)
    {s : Server} {fi : FileInfo} (hoff : fi.offSet = -1) {w : Download} (h : (s.downloadFromPeer E c fi w).2 = .stored)
    {p : CrashPoint} (hp : p = .asked ∨ ∃ n, p = .over n) (w' : Download) :
    Healed c fi ((s.recovered E c fi w p []).redeliver E c fi w') ↔
      ∃ v, (s.cutOff E c fi w p).getFileInfoFromLevelDB fi.md5 = some v := by
  obtain ⟨hasks, data, t, hstat, hsize⟩ := stored_stat hdist hoff h
  have hdisk : (s.cutOff E c fi w p).disk =
      ((asking c s fi w).downloadNormal c { fi with retry := fi.retry + 1 } w).1.disk := by
    rcases hp with rfl | ⟨n, rfl⟩
    · simp only [Server.cutOff, hasks, Bool.true_eq_false, if_false]
    · simp only [Server.cutOff, Server.consumerLog_iterate_disk, Server.downloadFromPeer_asks hdist hoff w hasks]
  have hfound : (s.recovered E c fi w p []).disk.stat (getFilePathByInfo c fi) = some (.file data t) := by
    show (s.cutOff E c fi w p).disk.stat (getFilePathByInfo c fi) = _
    rw [hdisk, hstat]
  have hcheck : (s.recovered E c fi w p []).checkFileExistByInfo c fi = true :=
    (Server.checkFileExistByInfo_file (by omega) hfound).mpr hsize
  have hignored : (s.recovered E c fi w p []).asks c fi.received = false := by
    rw [Server.asks_received hro, hcheck]
    rfl
  have hoff' : fi.received.offSet = -1 := hoff
  rw [Server.redeliver, Server.downloadFromPeer_ignored hdist hoff' w' hignored,
    Server.drainLog_nil (recovered_queue s fi w p [])]
  constructor
  · intro hheal
    exact hheal.record
  · intro hrecord
    exact ⟨⟨data, t, hfound, hsize⟩, hrecord⟩

/-- A file stored for a digest without a record, and the process cut off before its log entry is
    applied: no later delivery of the record makes it. -/
theorem a_stored_file_stays_unrecorded (hdist : c.enableDistinctFile = true) (hro : c.readOnly = false) {s : Server}
    {fi : FileInfo} (hoff : fi.offSet = -1) {w : Download} (h : (s.downloadFromPeer E c fi w).2 = .stored)
    (hnew : s.getFileInfoFromLevelDB fi.md5 = none) (w' : Download) :
    ¬ Healed c fi ((s.recovered E c fi w (.over 0) []).redeliver E c fi w') := by
  rw [after_the_rename_only_a_record_heals hdist hro hoff h (Or.inr ⟨0, rfl⟩)]
  have hasks := (stored_stat hdist hoff h).1
  have hldb : (s.cutOff E c fi w (.over 0)).ldb = (s.ldb.put (Server.downloadKey w.start (getFilePathByInfo c fi))
      .empty).del (Server.downloadKey w.start (getFilePathByInfo c fi)) := by
    simp only [Server.cutOff, Nat.zero_min, Function.iterate_zero, id_eq, Server.downloadFromPeer_asks hdist hoff w hasks,
      (Server.downloadNormal_logs (c := c) _ _ _).1, asking]
  rw [getFileInfo_put_del _ _ hldb, hnew]
  simp

end

/-! ## Fixed inputs -/

def helloServed : Download := { data := some "hello".toList }

def helloFolder : Loc := ["files".toList, "default".toList, "19700101".toList, "00".toList, "00".toList]

/-- Cut off after two bytes, the fetch is healed by the second delivery. -/
theorem a_broken_hello_heals :
    Healed uploadConfig helloRecord ((emptyRun.server.recovered Env.plain uploadConfig helloRecord helloServed
      (.tmp "he".toList) [1000]).redeliver Env.plain uploadConfig helloRecord helloServed) := by
  refine (redelivery_heals_iff rfl rfl rfl emptyRun.server helloServed (.tmp "he".toList) [1000] rfl (by decide)).mpr
    (.stored (by decide +kernel) ⟨helloFolder ++ ["tmp__a.txt".toList], helloFolder ++ ["a.txt".toList], ?_⟩
      (Or.inl (by decide +kernel)))
  decide +kernel

/-- Cut off once the file is renamed and the call is over, with the log entry in the queue: the
    second delivery finds the file, and nothing makes the record. -/
theorem an_interrupted_hello_is_never_recorded :
    let s := (emptyRun.server.recovered Env.plain uploadConfig helloRecord helloServed (.over 0) []).redeliver Env.plain
      uploadConfig helloRecord helloServed
    s.disk.read (getFilePathByInfo uploadConfig helloRecord) = some "hello".toList ∧ s.queueFileLog = [] ∧
      ¬ Healed uploadConfig helloRecord s := by
  refine ⟨by decide +kernel, by decide +kernel, fun h => ?_⟩
  obtain ⟨v, hv⟩ := h.record
  have hnone : ((emptyRun.server.recovered Env.plain uploadConfig helloRecord helloServed (.over 0) []).redeliver Env.plain
      uploadConfig helloRecord helloServed).getFileInfoFromLevelDB helloRecord.md5 = none := by decide +kernel
  rw [hnone] at hv
  cases hv

end GoFastdfs
