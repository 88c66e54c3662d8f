/-
  GoFastdfs.Deletion — a deletion and the repair between two nodes (`RemoveFile` of
  `http_remove.go`, `AutoRepair` and `ReceiveMd5s` of `http_repair.go` and `http_info.go`,
  `Sync` and `CheckFileAndSendToPeer`, `postFileToPeer`, `SyncFileInfo` and
  `DownloadFromPeer`).

  Deleting erases: the log consumer takes the record and its entry in the day's `files.md5`
  log away and writes nothing in their place. A repair compares the two nodes' logs, so a
  digest that one of them lacks counts as not yet received there. What passes between the
  nodes are notices, which may be lost, and errands (`receive_md5s`, `sync`, `delete`), which
  may be lost too.

  Proved: nothing of a digest comes up that is not there already (`gone_step`, one case for
  each thing a node does); so once both nodes have deleted a content and drained their logs,
  no later run brings its record back to either (`a_delete_on_both_nodes_stays`). While one
  node still has it the repair brings it back (`a_repair_undoes_the_delete`), and so do a push
  that waits and a notice under way (`a_waiting_push_undoes_the_delete`,
  `a_notice_under_way_undoes_the_delete`). A node that has the content in two files keeps the
  record of one (`a_second_file_outlives_the_delete`).
-/

import GoFastdfs.Newer
import GoFastdfs.Redelivery

namespace GoFastdfs

open Go (Str)

variable (E : Env) (c : Config) (P : Partnership)

/-! ## Pushing again -/

namespace Server

def resent (s : Server) (force : Bool) (fi : FileInfo) : Option FileInfo :=
  if fi.md5 = [] then none else
  let fi := if force then { fi with peers := [] } else fi
  if c.peers.length < fi.peers.length then none
  else some (if fi.peers.contains s.host then fi else { fi with peers := fi.peers ++ [s.host] })

/-- `CheckFileAndSendToPeer`; `iter` is the order in which a set is gone through. -/
def checkFileAndSendToPeer (iter : List Str → List Str) (s : Server) (date filename : Str) (force : Bool) : Server :=
  let fileInfos := (iter (s.getMd5sByDate date filename).dedup).filterMap s.getFileInfoFromLevelDB
  let queued := fileInfos.filterMap (s.resent c force)
  if filename = CONST_Md5_QUEUE_FILE_NAME then { s with queueFromPeers := s.queueFromPeers ++ queued }
  else { s with queueToPeers := s.queueToPeers ++ queued }

end Server

def getRequestURI (action : Str) : Str :=
  if c.supportGroupManage then '/' :: (c.group ++ '/' :: action) else '/' :: action

/-! ## Two nodes -/

/-- What one node asks of another, notices apart. -/
inductive Errand where
  | receiveMd5s (md5s : Str)
  | sync (date : Str) (force inner : Bool)
  | delete (md5sum : Str)
  deriving DecidableEq, Repr

def Server.RepairRequest.errand : Server.RepairRequest → Str × Errand
  | .receiveMd5s peer md5s => (peer, .receiveMd5s md5s)
  | .sync peer date => (peer, .sync date true false)

/-- Two nodes with what is under way between them. -/
structure Exchange extends Partners where
  /-- The pushes that uploads have started, each with its node. -/
  pushing : List (Bool × FileInfo) := []
  /-- The errands, each with the node it is for. -/
  errands : List (Bool × Errand) := []

namespace Exchange

inductive Act where
  /-- The `n`-th notice is taken. -/
  | deliver (n : Nat) (host : Str)
  | loseNotice (n : Nat)
  /-- The `n`-th errand is done. -/
  | errand (n : Nat) (iter : List Str → List Str) (w : RemoveDraw)
  | loseErrand (n : Nat)
  /-- Anybody whom node `i` takes for a peer asks it. -/
  | ask (i : Bool) (e : Errand)
  | consume (i : Bool) (w : Download)
  | post (i : Bool) (answer : Nat → PeerAnswer)
  /-- The `n`-th push that an upload has started. -/
  | push (n : Nat) (answer : Nat → PeerAnswer)
  | consumerLog (i : Bool)
  | checkFileExist (i : Bool) (md5sum fpath : Str)
  | autoRepair (i : Bool) (iter : List Str → List Str) (force : Bool) (answer : Nat → Server.RepairAnswer)
  | upload (i : Bool) (r : UploadRequest) (w : UploadDraw)
  | remove (i : Bool) (r : Request) (w : RemoveDraw)

def set (x : Exchange) (i : Bool) (s : Server) : Exchange := { x with toPartners := x.toPartners.set i s }

/-- Node `i` asks; what is for the other node's address gets there. -/
def ask (x : Exchange) (i : Bool) (l : List (Str × Errand)) : Exchange :=
  { x with errands := x.errands ++ (l.filter (·.1 == P.addr (!i))).map fun e => (!i, e.2) }

def remove (x : Exchange) (i : Bool) (r : Request) (w : RemoveDraw) : Exchange :=
  let u := (x.node i).removeFile E (P.config i) r w
  (x.set i u.2.2).ask P i (u.2.1.map fun peer => (peer, .delete (removeKey E (P.config i) r)))

def deletion (md5sum : Str) : Request :=
  { requestURI := getRequestURI c "delete".toList, body := [("md5".toList, md5sum), ("inner".toList, "1".toList)] }

/-- `ReceiveMd5s`, `Sync` or `RemoveFile` at node `i`. -/
def serve (x : Exchange) (i : Bool) (iter : List Str → List Str) (w : RemoveDraw) : Errand → Exchange
  | .receiveMd5s md5s =>
    x.set i { x.node i with queueToPeers := (x.node i).queueToPeers ++ (x.node i).receiveMd5s md5s }
  | .sync date force inner =>
    let x := if inner then x else x.ask P i ((P.config i).peers.map fun peer => (peer, .sync date force true))
    if date = [] then x else
    let filename := if force then CONST_FILE_Md5_FILE_NAME else CONST_Md5_ERROR_FILE_NAME
    x.set i ((x.node i).checkFileAndSendToPeer (P.config i) iter (Go.replaceAll ['.'] [] date) filename force)
  | .delete md5sum => x.remove E P i (deletion (P.config i) md5sum) w

def act (x : Exchange) : Act → Exchange
  | .deliver n host =>
    match x.wire[n]? with
    | none => x
    | some (i, fi) => { x with toPartners := { x.toPartners with wire := x.wire.eraseIdx n }.deliver E P i fi host }
  | .loseNotice n => { x with wire := x.wire.eraseIdx n }
  | .errand n iter w =>
    match x.errands[n]? with
    | none => x
    | some (i, e) => { x with errands := x.errands.eraseIdx n }.serve E P i iter w e
  | .loseErrand n => { x with errands := x.errands.eraseIdx n }
  | .ask i e => { x with errands := x.errands ++ [(i, e)] }
  | .consume i w => { x with toPartners := x.toPartners.consume E P i w }
  | .post i answer => { x with toPartners := x.toPartners.post E P i answer }
  | .push n answer =>
    match x.pushing[n]? with
    | none => x
    | some (i, fi) =>
      let s := ((x.node i).postFileToPeer E (P.config i) fi answer).1
      { x with
        toPartners := (x.toPartners.set i s).send P i ((x.node i).postNotices E (P.config i) fi answer)
        pushing := x.pushing.eraseIdx n }
  | .consumerLog i => x.set i ((x.node i).consumerLog E)
  | .checkFileExist i md5sum fpath => x.set i ((x.node i).checkFileExist E (P.config i) md5sum fpath).2
  | .autoRepair i iter force answer =>
    let r := (x.node i).autoRepair (P.config i) iter force answer
    (x.set i { x.node i with queueToPeers := (x.node i).queueToPeers ++ r.1 }).ask P i (r.2.map Server.RepairRequest.errand)
  | .upload i r w =>
    let u := (x.node i).upload E (P.config i) r w
    { x.set i u.2 with pushing := x.pushing ++ (u.1.recorded.map ((i, ·))).toList }
  | .remove i r w => x.remove E P i r w

/-- No upload records the digest. -/
def Allowed (m : Str) (x : Exchange) : Act → Prop
  | .upload i r w => ∀ fi, ((x.node i).upload E (P.config i) r w).1.recorded = some fi → fi.md5 ≠ m
  | _ => True

/-- Anything but an upload of the digest. -/
inductive Step (m : Str) : Exchange → Exchange → Prop
  | act (x : Exchange) (a : Act) : x.Allowed E P m a → Step m x (x.act E P a)

def drained (x : Exchange) : Exchange := (x.set true ((x.node true).drainLog E)).set false ((x.node false).drainLog E)

end Exchange

/-! ## What is left of a digest -/

namespace Server

structure Idle (m : Str) (s : Server) : Prop where
  toPeers : ∀ fi ∈ s.queueToPeers, fi.md5 ≠ m
  fromPeers : ∀ fi ∈ s.queueFromPeers, fi.md5 ≠ m

def Lacks (m : Str) (s : Server) : Prop := ∀ k v, s.ldb.get k = some (.record v) → v.md5 ≠ m

/-- No record of the digest, and no log entry that will make one. -/
structure Bare (m : Str) (s : Server) : Prop where
  lacks : s.Lacks m
  log : ∀ q ∈ s.queueFileLog, q.fileName = CONST_FILE_Md5_FILE_NAME → q.fileInfo.md5 ≠ m

structure Free (m : Str) (s : Server) : Prop extends Idle m s, Bare m s

/-- The digest's records, and those that log entries will make, are of the file at `path`: under
    the digest and under that of the path, which is stored as it is. -/
structure Lone (m path : Str) (s : Server) : Prop where
  records : ∀ k v, s.ldb.get k = some (.record v) → v.md5 = m → v.fullpath = path ∧ (k = m ∨ k = E.md5 path)
  log : ∀ q ∈ s.queueFileLog, q.fileName = CONST_FILE_Md5_FILE_NAME → q.fileInfo.md5 = m →
    q.fileInfo.Legible ∧ q.fileInfo.fullpath = path

end Server

namespace Exchange

structure Silent (m : Str) (x : Exchange) : Prop where
  wire : ∀ e ∈ x.wire, e.2.md5 ≠ m
  pushing : ∀ e ∈ x.pushing, e.2.md5 ≠ m

structure Gone (m : Str) (x : Exchange) : Prop extends Silent m x where
  nodes : ∀ i, (x.node i).Free m

/-- Node `i` has nothing of the digest, or the `delete` that it was sent takes it away. -/
inductive AlsoDeleted (m md5sum : Str) (i : Bool) (x : Exchange) : Exchange → Prop
  | bare : (x.node i).Bare m → AlsoDeleted m md5sum i x x
  | deleted (n : Nat) (iter : List Str → List Str) (w : RemoveDraw) (fi : FileInfo) :
      x.errands[n]? = some (i, .delete md5sum) →
      ((x.node i).removeFile E (P.config i) (deletion (P.config i) md5sum) w).1 = .removed fi → fi.md5 = m →
      AlsoDeleted m md5sum i x (x.act E P (.errand n iter w))

end Exchange

/-! ## One operation -/

section
variable {E c P} {m : Str}

namespace Server

theorem Free.lookup {s : Server} (h : s.Free m) {k : Str} {v : FileInfo} (hv : s.getFileInfoFromLevelDB k = some v) :
    v.md5 ≠ m := h.lacks k v (getFileInfo_eq_some.mp hv)

theorem Free.of_eq {s s' : Server} (h : s.Free m) (hldb : s'.ldb = s.ldb) (hto : s'.queueToPeers = s.queueToPeers)
    (hfrom : s'.queueFromPeers = s.queueFromPeers) (hlog : s'.queueFileLog = s.queueFileLog) : s'.Free m := by
  refine ⟨⟨?_, ?_⟩, ⟨?_, ?_⟩⟩
  · rw [hto]
    exact h.toPeers
  · rw [hfrom]
    exact h.fromPeers
  · unfold Lacks
    rw [hldb]
    exact h.lacks
  · rw [hlog]
    exact h.log

theorem Free.save {s : Server} (h : s.Free m) {fi : FileInfo} (hfi : fi.md5 ≠ m) (key : Str) :
    (s.saveFileInfoToLevelDB E key fi .ldb).Free m := by
  refine ⟨⟨h.toPeers, h.fromPeers⟩, ⟨fun k v hv => ?_, h.log⟩⟩
  simp only [saveFileInfoToLevelDB, Store.get_put] at hv
  split at hv
  · cases hv
    exact hfi
  · exact h.lacks k v hv

theorem Free.drop {s : Server} (h : s.Free m) (key : Str) : (s.removeKeyFromLevelDB key .ldb).Free m :=
  ⟨⟨h.toPeers, h.fromPeers⟩, ⟨fun k v hv => h.lacks k v (Store.get_del_some hv).2, h.log⟩⟩

theorem Free.queueTo {s : Server} (h : s.Free m) {l : List FileInfo} (hl : ∀ fi ∈ l, fi.md5 ≠ m) :
    ({ s with queueToPeers := s.queueToPeers ++ l } : Server).Free m :=
  ⟨⟨fun fi hfi => (List.mem_append.mp hfi).elim (h.toPeers fi) (hl fi), h.fromPeers⟩, ⟨h.lacks, h.log⟩⟩

theorem Free.queueFrom {s : Server} (h : s.Free m) {l : List FileInfo} (hl : ∀ fi ∈ l, fi.md5 ≠ m) :
    ({ s with queueFromPeers := s.queueFromPeers ++ l } : Server).Free m :=
  ⟨⟨h.toPeers, fun fi hfi => (List.mem_append.mp hfi).elim (h.fromPeers fi) (hl fi)⟩, ⟨h.lacks, h.log⟩⟩

theorem Free.requeue {s : Server} (h : s.Free m) {fi : FileInfo} (hfi : fi.md5 ≠ m) : (s.appendToDownloadQueue fi).Free m :=
  h.queueFrom fun _ hv => List.mem_singleton.mp hv ▸ hfi

theorem Free.logLater {s : Server} (h : s.Free m) {fi : FileInfo} {n : Str}
    (hfi : n = CONST_FILE_Md5_FILE_NAME → fi.md5 ≠ m) : (s.logLater fi n).Free m := by
  refine ⟨⟨h.toPeers, h.fromPeers⟩, ⟨h.lacks, fun q hq hn => ?_⟩⟩
  rcases List.mem_append.mp hq with hq | hq
  · exact h.log q hq hn
  · obtain rfl := List.mem_singleton.mp hq
    exact hfi hn

theorem Free.disk {s : Server} (h : s.Free m) (d : Disk) : ({ s with disk := d } : Server).Free m := h.of_eq rfl rfl rfl rfl

theorem Free.osRemove {s : Server} (h : s.Free m) (p : Str) : (s.osRemove p).Free m := h.disk _

/-! ### The log -/

theorem saveFileMd5Log_queues (s : Server) (fi : FileInfo) (n : Str) :
    (s.saveFileMd5Log E fi n).queueToPeers = s.queueToPeers ∧ (s.saveFileMd5Log E fi n).queueFromPeers = s.queueFromPeers := by
  simp only [saveFileMd5Log]
  split_ifs <;> exact ⟨rfl, rfl⟩

theorem Idle.saveFileMd5Log {s : Server} (h : s.Idle m) (fi : FileInfo) (n : Str) : (s.saveFileMd5Log E fi n).Idle m := by
  obtain ⟨hto, hfrom⟩ := saveFileMd5Log_queues (E := E) s fi n
  refine ⟨?_, ?_⟩
  · rw [hto]
    exact h.toPeers
  · rw [hfrom]
    exact h.fromPeers

theorem Bare.saveFileMd5Log {s : Server} (h : s.Bare m) {fi : FileInfo} {n : Str}
    (hfi : n = CONST_FILE_Md5_FILE_NAME → fi.md5 ≠ m) : (s.saveFileMd5Log E fi n).Bare m := by
  refine ⟨fun k v hv => ?_, ?_⟩
  · rcases saveFileMd5Log_record E hv with ⟨hn, _, _, rfl⟩ | ⟨hold, _⟩
    · exact hfi hn
    · exact h.lacks k v hold
  · rw [saveFileMd5Log_queue]
    exact h.log

theorem Free.saveFileMd5Log {s : Server} (h : s.Free m) {fi : FileInfo} {n : Str}
    (hfi : n = CONST_FILE_Md5_FILE_NAME → fi.md5 ≠ m) : (s.saveFileMd5Log E fi n).Free m :=
  ⟨h.toIdle.saveFileMd5Log fi n, h.toBare.saveFileMd5Log hfi⟩

theorem consumerLog_cons {s : Server} {q : FileLog} {rest : List FileLog} (h : s.queueFileLog = q :: rest) :
    s.consumerLog E = { s with queueFileLog := rest }.saveFileMd5Log E q.fileInfo q.fileName := by
  simp only [Server.consumerLog, h]

theorem consumerLog_nil {s : Server} (h : s.queueFileLog = []) : s.consumerLog E = s := by
  simp only [Server.consumerLog, h]

theorem Idle.consumerLog {s : Server} (h : s.Idle m) : (s.consumerLog E).Idle m := by
  cases hq : s.queueFileLog with
  | nil =>
    rw [consumerLog_nil hq]
    exact h
  | cons q rest =>
    have hrest : Server.Idle m { s with queueFileLog := rest } := ⟨h.toPeers, h.fromPeers⟩
    rw [consumerLog_cons hq]
    exact hrest.saveFileMd5Log _ _

theorem Bare.consumerLog {s : Server} (h : s.Bare m) : (s.consumerLog E).Bare m := by
  cases hq : s.queueFileLog with
  | nil =>
    rw [consumerLog_nil hq]
    exact h
  | cons q rest =>
    have hrest : Server.Bare m { s with queueFileLog := rest } :=
      ⟨h.lacks, fun q' hq' => h.log q' (hq ▸ List.mem_cons_of_mem q hq')⟩
    rw [consumerLog_cons hq]
    exact hrest.saveFileMd5Log (h.log q (hq ▸ List.mem_cons_self))

theorem Free.consumerLog {s : Server} (h : s.Free m) : (s.consumerLog E).Free m :=
  ⟨h.toIdle.consumerLog, h.toBare.consumerLog⟩

/-! ### Pushes -/

theorem Free.postToPeer {s : Server} (h : s.Free m) (entry : FileInfo) {fi : FileInfo} (hfi : fi.md5 ≠ m) (peer : Str)
    (a : PeerAnswer) :
    (s.postToPeer E c entry fi peer a).1.Free m ∧ (s.postToPeer E c entry fi peer a).2.1.md5 ≠ m := by
  unfold Server.postToPeer
  split
  · exact ⟨h, hfi⟩
  split
  · exact ⟨h, hfi⟩
  rename_i n hn
  have hsized : (if fi.size = 0 then { fi with size := n.size } else fi) = sized fi n := rfl
  have hmd5 : (sized fi n).md5 ≠ m := (sized_md5 fi n).symm ▸ hfi
  have hnote : (s.notePeer E (sized fi n) peer).1.Free m ∧ (s.notePeer E (sized fi n) peer).2.md5 ≠ m := by
    have hnoted : ({ sized fi n with peers := (sized fi n).peers ++ [peer] } : FileInfo).md5 ≠ m := hmd5
    exact ⟨h.save hnoted _, hmd5⟩
  have herror : CONST_Md5_ERROR_FILE_NAME ≠ CONST_FILE_Md5_FILE_NAME := errorName_ne.1
  rw [hsized]
  dsimp only
  split
  · exact hnote
  split
  · split
    · refine ⟨Free.logLater (h.queueTo fun v hv => ?_) fun hf => absurd hf herror, hmd5⟩
      obtain rfl := List.mem_singleton.mp hv
      exact hmd5
    · exact ⟨h.logLater fun hf => absurd hf herror, hmd5⟩
  split
  · exact hnote
  · exact ⟨h.logLater fun hf => absurd hf herror, hmd5⟩

theorem Free.postLoop (entry : FileInfo) (l : List (Str × PeerAnswer)) : ∀ {s : Server} {fi : FileInfo}, s.Free m →
    fi.md5 ≠ m → (Server.postLoop E c entry s fi l).1.Free m ∧ ∀ x ∈ notices E c entry s fi l, x.2.md5 ≠ m := by
  induction l with
  | nil => exact fun h _ => ⟨h, fun x hx => by cases hx⟩
  | cons x l ih =>
    intro s fi h hfi
    obtain ⟨hs, hmd5⟩ := h.postToPeer (E := E) (c := c) entry hfi x.1 x.2
    obtain ⟨hloop, hrest⟩ := ih hs hmd5
    refine ⟨hloop, fun y hy => ?_⟩
    rcases List.mem_append.mp hy with hy | hy
    · split at hy
      · cases hy
      split at hy
      · cases hy
      split at hy
      · cases hy
      · obtain rfl := List.mem_singleton.mp hy
        exact (sized_md5 fi _).symm ▸ hfi
    · exact hrest y hy

theorem Free.postFileToPeer {s : Server} (h : s.Free m) {fi : FileInfo} (hfi : fi.md5 ≠ m) (answer : Nat → PeerAnswer) :
    (s.postFileToPeer E c fi answer).1.Free m ∧ ∀ x ∈ s.postNotices E c fi answer, x.2.md5 ≠ m :=
  Free.postLoop fi _ h hfi

/-! ### Fetches -/

theorem Free.syncFileInfo {s : Server} (h : s.Free m) {fi : FileInfo} (hfi : fi.md5 ≠ m) (host : Str) :
    (s.syncFileInfo E c fi host).1.Free m := by
  unfold Server.syncFileInfo
  dsimp only
  split
  · exact (h.save hfi _).requeue hfi
  · exact (h.logLater fun _ => hfi).requeue hfi

theorem Free.answered {s : Server} (h : s.Free m) {fi : FileInfo} (hfi : fi.md5 ≠ m) {r : Server × FetchEnd}
    (hr : Server.Answered E c s fi r) : r.1.Free m := by
  cases hr with
  | present => exact h.save hfi _
  | requeued d => exact (h.disk d).requeue hfi
  | failed d => exact h.disk d
  | recorded d => exact (h.disk d).save hfi _
  | logged d => exact (h.disk d).logLater fun _ => hfi

theorem Free.downloadRequest {s : Server} (h : s.Free m) {fi : FileInfo} (hfi : fi.md5 ≠ m) (w : Download) :
    (s.downloadRequest E c fi w).1.Free m := by
  obtain ⟨d, r, hr, hrequest⟩ := Server.downloadRequest_answered (E := E) (c := c) s fi w
  rw [hrequest]
  have hkeyed : ({ s with
      disk := d
      ldb := s.ldb.put (Server.downloadKey w.start (getFilePathByInfo c fi)) .empty } : Server).Free m := by
    refine ⟨⟨h.toPeers, h.fromPeers⟩, ⟨fun k v hv => ?_, h.log⟩⟩
    simp only [Store.get_put] at hv
    split at hv
    · cases hv
    · exact h.lacks k v hv
  exact Free.drop (hkeyed.answered hfi hr) _

theorem Free.downloadFromPeer {s : Server} (h : s.Free m) {fi : FileInfo} (hfi : fi.md5 ≠ m) (w : Download) :
    (s.downloadFromPeer E c fi w).1.Free m ∧ ∀ x ∈ s.downloadNotices E c fi w, x.2.md5 ≠ m := by
  have hretry : ({ fi with retry := fi.retry + 1 } : FileInfo).md5 ≠ m := hfi
  have hnewer : ∀ t, ({ fi with retry := fi.retry + 1, timeStamp := t } : FileInfo).md5 ≠ m := fun _ => hfi
  constructor
  · unfold Server.downloadFromPeer
    split
    · exact h
    split
    · exact h
    dsimp only
    split
    · exact h
    split
    · split
      · exact h.downloadRequest hretry w
      split
      · exact (h.postFileToPeer (hnewer _) _).1
      · exact (h.osRemove _).downloadRequest hretry w
    · exact h.downloadRequest hretry w
  · unfold downloadNotices
    split
    · split
      · exact fun x hx => by cases hx
      · exact (h.postFileToPeer (hnewer _) _).2
    · exact fun x hx => by cases hx

/-! ### Repair -/

theorem Free.receiveMd5s {s : Server} (h : s.Free m) (md5str : Str) : ∀ fi ∈ s.receiveMd5s md5str, fi.md5 ≠ m := by
  intro fi hfi
  obtain ⟨k, _, hk⟩ := List.mem_filterMap.mp hfi
  exact h.lookup hk

/-- What a repair queues are records of this node. -/
theorem Free.autoRepair {s : Server} (h : s.Free m) (iter : List Str → List Str) (force : Bool)
    (answer : Nat → RepairAnswer) : ∀ fi ∈ (s.autoRepair c iter force answer).1, fi.md5 ≠ m := by
  intro fi hfi
  obtain ⟨turn, hturn, hfi⟩ := List.mem_flatMap.mp hfi
  obtain ⟨x, _, hx⟩ := List.mem_flatMap.mp hturn
  obtain ⟨row, _, rfl⟩ := List.mem_map.mp hx
  unfold repairDay at hfi
  split at hfi
  · cases hfi
  split at hfi
  · cases hfi
  split at hfi
  · split at hfi
    · cases hfi
    · obtain ⟨k, _, hk⟩ := List.mem_filterMap.mp hfi
      exact h.lookup hk
  · cases hfi

theorem resent_md5 {s : Server} {force : Bool} {fi v : FileInfo} (h : s.resent c force fi = some v) : v.md5 = fi.md5 := by
  unfold resent at h
  split at h
  · cases h
  dsimp only at h
  generalize hfi' : (if force then { fi with peers := [] } else fi) = fi' at h
  have hsame : fi'.md5 = fi.md5 := by
    rw [← hfi']
    split <;> rfl
  split at h
  · cases h
  · obtain rfl := Option.some.inj h
    rw [← hsame]
    split <;> rfl

theorem Free.checkFileAndSendToPeer {s : Server} (h : s.Free m) (iter : List Str → List Str) (date filename : Str)
    (force : Bool) : (s.checkFileAndSendToPeer c iter date filename force).Free m := by
  have hqueued : ∀ fi ∈ ((iter (s.getMd5sByDate date filename).dedup).filterMap s.getFileInfoFromLevelDB).filterMap
      (s.resent c force), fi.md5 ≠ m := by
    intro fi hfi
    obtain ⟨v, hv, hfi⟩ := List.mem_filterMap.mp hfi
    obtain ⟨k, _, hk⟩ := List.mem_filterMap.mp hv
    rw [resent_md5 hfi]
    exact h.lookup hk
  unfold Server.checkFileAndSendToPeer
  dsimp only
  split
  · exact h.queueFrom hqueued
  · exact h.queueTo hqueued

theorem Free.checkFileExist {s : Server} (h : s.Free m) (md5sum fpath : Str) :
    (s.checkFileExist E c md5sum fpath).2.Free m := by
  unfold Server.checkFileExist
  split
  · split
    · exact h
    split
    · exact h
    · exact h.drop _
  · split
    · exact h
    split
    · exact h
    · exact h

/-! ### Uploads and deletions -/

theorem Free.upload {s : Server} (h : s.Free m) {r : UploadRequest} {w : UploadDraw}
    (hnot : ∀ fi, (s.upload E c r w).1.recorded = some fi → fi.md5 ≠ m) : (s.upload E c r w).2.Free m := by
  rcases upload_databases (E := E) (c := c) s r w with ⟨d, domain, _, hs⟩ | ⟨fi, d, domain, hrec, _, _, _, hs⟩
  · rw [hs]
    exact h.of_eq rfl rfl rfl rfl
  · rw [hs]
    exact ((h.disk d).saveFileMd5Log fun _ => hnot fi hrec).of_eq rfl rfl rfl rfl

theorem Free.removeFile {s : Server} (h : s.Free m) (r : Request) (w : RemoveDraw) : (s.removeFile E c r w).2.2.Free m := by
  have hremoves : CONST_REMOME_Md5_FILE_NAME ≠ CONST_FILE_Md5_FILE_NAME := logNames_ne.1
  rcases removeFile_cases (E := E) (c := c) s r w with ⟨_, hs⟩ | ⟨v, _, _, _, ⟨_, _, hs⟩ | ⟨d, _, _, hs⟩⟩
  · rw [hs]
    exact h
  · rw [hs]
    exact h.logLater fun hf => absurd hf hremoves
  · rw [hs]
    exact (h.disk d).logLater fun hf => absurd hf hremoves

end Server

/-! ## One step -/

namespace Exchange

theorem Gone.set {x : Exchange} (h : x.Gone m) (i : Bool) {s : Server} (hs : s.Free m) : (x.set i s).Gone m := by
  refine ⟨⟨h.wire, h.pushing⟩, fun j => ?_⟩
  show ((x.toPartners.set i s).node j).Free m
  by_cases hj : j = i
  · subst hj
    rw [Partners.set_node_self]
    exact hs
  · rw [Partners.set_node_ne _ hj]
    exact h.nodes j

theorem Gone.ask {x : Exchange} (h : x.Gone m) (i : Bool) (l : List (Str × Errand)) : (x.ask P i l).Gone m :=
  ⟨⟨h.wire, h.pushing⟩, h.nodes⟩

theorem Gone.notify {x : Exchange} (h : x.Gone m) (i : Bool) {s : Server} (hs : s.Free m) {l : List (Str × FileInfo)}
    (hl : ∀ e ∈ l, e.2.md5 ≠ m) : ({ x with toPartners := (x.toPartners.set i s).send P i l } : Exchange).Gone m := by
  refine ⟨⟨fun e he => ?_, h.pushing⟩, (h.set i hs).nodes⟩
  rcases List.mem_append.mp he with he | he
  · exact h.wire e he
  · obtain ⟨y, hy, rfl⟩ := List.mem_map.mp he
    exact hl y (List.mem_filter.mp hy).1

theorem Gone.remove {x : Exchange} (h : x.Gone m) (i : Bool) (r : Request) (w : RemoveDraw) : (x.remove E P i r w).Gone m :=
  (h.set i ((h.nodes i).removeFile r w)).ask i _

theorem Gone.serve {x : Exchange} (h : x.Gone m) (i : Bool) (iter : List Str → List Str) (w : RemoveDraw) (e : Errand) :
    (x.serve E P i iter w e).Gone m := by
  cases e with
  | receiveMd5s md5s => exact h.set i ((h.nodes i).queueTo ((h.nodes i).receiveMd5s md5s))
  | sync date force inner =>
    unfold Exchange.serve
    dsimp only
    have hasked : (if inner then x else x.ask P i ((P.config i).peers.map fun peer =>
        (peer, .sync date force true))).Gone m := by
      split
      · exact h
      · exact h.ask i _
    split
    · exact hasked
    · exact hasked.set i ((hasked.nodes i).checkFileAndSendToPeer _ _ _ _)
  | delete md5sum => exact h.remove i _ w

theorem Gone.deliver {x : Exchange} (h : x.Gone m) {n : Nat} {i : Bool} {fi : FileInfo} (hn : x.wire[n]? = some (i, fi))
    (host : Str) : ({ x with
      toPartners := { x.toPartners with wire := x.wire.eraseIdx n }.deliver E P i fi host } : Exchange).Gone m := by
  have hrest : ({ x with wire := x.wire.eraseIdx n } : Exchange).Gone m :=
    ⟨⟨fun e he => h.wire e (List.mem_of_mem_eraseIdx he), h.pushing⟩, h.nodes⟩
  exact hrest.set i ((h.nodes i).syncFileInfo (h.wire _ (List.mem_of_getElem? hn)) host)

theorem Gone.consume {x : Exchange} (h : x.Gone m) (i : Bool) (w : Download) :
    ({ x with toPartners := x.toPartners.consume E P i w } : Exchange).Gone m := by
  unfold Partners.consume
  split
  · exact h
  rename_i fi rest hq
  have hfi : fi.md5 ≠ m := (h.nodes i).fromPeers fi (hq ▸ List.mem_cons_self)
  have hrest : ({ x.node i with queueFromPeers := rest } : Server).Free m :=
    ⟨⟨(h.nodes i).toPeers, fun v hv => (h.nodes i).fromPeers v (hq ▸ List.mem_cons_of_mem fi hv)⟩,
      ⟨(h.nodes i).lacks, (h.nodes i).log⟩⟩
  dsimp only
  split
  · exact h.set i hrest
  · obtain ⟨hs, hl⟩ := hrest.downloadFromPeer (E := E) (c := P.config i) hfi w
    exact h.notify i hs hl

theorem Gone.post {x : Exchange} (h : x.Gone m) (i : Bool) (answer : Nat → PeerAnswer) :
    ({ x with toPartners := x.toPartners.post E P i answer } : Exchange).Gone m := by
  unfold Partners.post
  split
  · exact h
  rename_i fi rest hq
  have hfi : fi.md5 ≠ m := (h.nodes i).toPeers fi (hq ▸ List.mem_cons_self)
  have hrest : ({ x.node i with queueToPeers := rest } : Server).Free m :=
    ⟨⟨fun v hv => (h.nodes i).toPeers v (hq ▸ List.mem_cons_of_mem fi hv), (h.nodes i).fromPeers⟩,
      ⟨(h.nodes i).lacks, (h.nodes i).log⟩⟩
  obtain ⟨hs, hl⟩ := hrest.postFileToPeer (E := E) (c := P.config i) hfi answer
  exact h.notify i hs hl

theorem Gone.upload {x : Exchange} (h : x.Gone m) {i : Bool} {r : UploadRequest} {w : UploadDraw}
    (hnot : x.Allowed E P m (.upload i r w)) : (x.act E P (.upload i r w)).Gone m := by
  refine ⟨⟨h.wire, fun e he => ?_⟩, (h.set i ((h.nodes i).upload hnot)).nodes⟩
  rcases List.mem_append.mp he with he | he
  · exact h.pushing e he
  · obtain ⟨fi, hrec, rfl⟩ := Option.map_eq_some_iff.mp (Option.mem_toList.mp he)
    exact hnot fi hrec

theorem gone_step {x x' : Exchange} (h : x.Gone m) (hstep : Step E P m x x') : x'.Gone m := by
  obtain ⟨a, hallowed⟩ := hstep
  cases a with
  | deliver n host =>
    simp only [act]
    split
    · exact h
    · rename_i hn
      exact h.deliver hn host
  | loseNotice n => exact ⟨⟨fun e he => h.wire e (List.mem_of_mem_eraseIdx he), h.pushing⟩, h.nodes⟩
  | errand n iter w =>
    simp only [act]
    split
    · exact h
    · rename_i i e hn
      have hrest : ({ x with errands := x.errands.eraseIdx n } : Exchange).Gone m := ⟨⟨h.wire, h.pushing⟩, h.nodes⟩
      exact hrest.serve i iter w e
  | loseErrand n => exact ⟨⟨h.wire, h.pushing⟩, h.nodes⟩
  | ask i e => exact ⟨⟨h.wire, h.pushing⟩, h.nodes⟩
  | consume i w => exact h.consume i w
  | post i answer => exact h.post i answer
  | push n answer =>
    simp only [act]
    split
    · exact h
    · rename_i i fi hn
      have hrest : ({ x with pushing := x.pushing.eraseIdx n } : Exchange).Gone m :=
        ⟨⟨h.wire, fun e he => h.pushing e (List.mem_of_mem_eraseIdx he)⟩, h.nodes⟩
      obtain ⟨hs, hl⟩ := (h.nodes i).postFileToPeer (E := E) (c := P.config i) (h.pushing _ (List.mem_of_getElem? hn)) answer
      exact hrest.notify i hs hl
  | consumerLog i => exact h.set i (h.nodes i).consumerLog
  | checkFileExist i md5sum fpath => exact h.set i ((h.nodes i).checkFileExist md5sum fpath)
  | autoRepair i iter force answer =>
    exact (h.set i ((h.nodes i).queueTo ((h.nodes i).autoRepair iter force answer))).ask i _
  | upload i r w => exact h.upload hallowed
  | remove i r w => exact h.remove i r w

theorem gone_run {x x' : Exchange} (h : x.Gone m) (hrun : Relation.ReflTransGen (Step E P m) x x') : x'.Gone m := by
  induction hrun with
  | refl => exact h
  | tail _ hstep ih => exact gone_step ih hstep

end Exchange

/-! ## A deletion -/

namespace Server

theorem Lone.saveFileMd5Log {path : Str} {s : Server} (h : s.Lone E m path) {q : FileLog}
    (hq : q.fileName = CONST_FILE_Md5_FILE_NAME → q.fileInfo.md5 = m → q.fileInfo.Legible ∧ q.fileInfo.fullpath = path) :
    (s.saveFileMd5Log E q.fileInfo q.fileName).Lone E m path := by
  refine ⟨fun k v hv hmd5 => ?_, ?_⟩
  · rcases saveFileMd5Log_record E hv with ⟨hn, _, hkey, rfl⟩ | ⟨hold, _⟩
    · have hmd5' : q.fileInfo.md5 = m := hmd5
      obtain ⟨hlegible, hpath⟩ := hq hn hmd5'
      rw [hmd5', hpath] at hkey
      exact ⟨hlegible.fullpath.trans hpath, hkey⟩
    · exact h.records k v hold hmd5
  · rw [saveFileMd5Log_queue]
    exact h.log

theorem Lone.consumerLog {path : Str} {s : Server} (h : s.Lone E m path) : (s.consumerLog E).Lone E m path := by
  cases hq : s.queueFileLog with
  | nil =>
    rw [consumerLog_nil hq]
    exact h
  | cons q rest =>
    have hrest : Server.Lone E m path { s with queueFileLog := rest } :=
      ⟨h.records, fun q' hq' => h.log q' (hq ▸ List.mem_cons_of_mem q hq')⟩
    rw [consumerLog_cons hq]
    exact hrest.saveFileMd5Log (h.log q (hq ▸ List.mem_cons_self))

/-- The entry of its deletion takes both records of a file away. -/
theorem Lone.removed {path : Str} {s : Server} (h : s.Lone E m path) (hm : m ≠ []) {fi : FileInfo} (hmd5 : fi.md5 = m)
    (hpath : fi.fullpath = path) : (s.saveFileMd5Log E fi CONST_REMOME_Md5_FILE_NAME).Lacks m := by
  intro k v hv hvm
  rw [saveFileMd5Log_removes_ldb E s (hmd5 ▸ hm)] at hv
  obtain ⟨hnpath, hv⟩ := Store.get_del_some hv
  obtain ⟨hnm, hv⟩ := Store.get_del_some hv
  rcases (h.records k v hv hvm).2 with rfl | rfl
  · exact hnm hmd5.symm
  · exact hnpath (hpath ▸ rfl)

/-- Draining a log that ends with the deletion of a file. -/
theorem drain_removed {path : Str} (hm : m ≠ []) {fi : FileInfo} (hmd5 : fi.md5 = m) (hpath : fi.fullpath = path)
    (l : List FileLog) : ∀ {s : Server}, s.queueFileLog = l ++ [⟨fi, CONST_REMOME_Md5_FILE_NAME⟩] → s.Lone E m path →
      ((Server.consumerLog E)^[l.length + 1] s).Bare m := by
  induction l with
  | nil =>
    intro s hs hlone
    have hlone' : Server.Lone E m path { s with queueFileLog := [] } := ⟨hlone.records, fun q hq => by cases hq⟩
    rw [List.length_nil, Function.iterate_succ_apply, Function.iterate_zero_apply, consumerLog_cons hs]
    refine ⟨hlone'.removed hm hmd5 hpath, fun q hq => ?_⟩
    rw [saveFileMd5Log_queue] at hq
    cases hq
  | cons q rest ih =>
    intro s hs hlone
    rw [List.length_cons, Function.iterate_succ_apply]
    refine ih ?_ hlone.consumerLog
    rw [consumerLog_cons hs, saveFileMd5Log_queue]
    rfl

theorem Idle.iterate {s : Server} (h : s.Idle m) (n : Nat) : ((Server.consumerLog E)^[n] s).Idle m := by
  induction n generalizing s with
  | zero => exact h
  | succ n ih =>
    rw [Function.iterate_succ_apply]
    exact ih h.consumerLog

theorem Free.iterate {s : Server} (h : s.Free m) (n : Nat) : ((Server.consumerLog E)^[n] s).Free m := by
  induction n generalizing s with
  | zero => exact h
  | succ n ih =>
    rw [Function.iterate_succ_apply]
    exact ih h.consumerLog

/-- A deletion that is answered with `remove success` takes its content away for good, once
    the log is drained. -/
theorem removeFile_free {path : Str} {s : Server} (hm : m ≠ []) (hidle : s.Idle m) (hlone : s.Lone E m path)
    {r : Request} {w : RemoveDraw} {fi : FileInfo} (hremoved : (s.removeFile E c r w).1 = .removed fi) (hfi : fi.md5 = m) :
    ((s.removeFile E c r w).2.2.drainLog E).Free m := by
  have hremoves : CONST_REMOME_Md5_FILE_NAME ≠ CONST_FILE_Md5_FILE_NAME := logNames_ne.1
  rcases removeFile_cases (E := E) (c := c) s r w with ⟨he, _⟩ | ⟨v, hv, _, _, ⟨_, he, _⟩ | ⟨d, _, he, hs⟩⟩
  · rw [hremoved] at he
    cases he
  · rw [hremoved] at he
    cases he
  rw [hremoved] at he
  cases he
  have hpath : fi.fullpath = path := (hlone.records _ fi (getFileInfo_eq_some.mp hv) hfi).1
  have hidle' : (Server.logLater { s with disk := d } fi CONST_REMOME_Md5_FILE_NAME).Idle m := ⟨hidle.toPeers, hidle.fromPeers⟩
  have hlone' : (Server.logLater { s with disk := d } fi CONST_REMOME_Md5_FILE_NAME).Lone E m path := by
    refine ⟨hlone.records, fun q hq hn => ?_⟩
    rcases List.mem_append.mp hq with hq | hq
    · exact hlone.log q hq hn
    · obtain rfl := List.mem_singleton.mp hq
      exact absurd hn hremoves
  have hlength : (Server.logLater { s with disk := d } fi CONST_REMOME_Md5_FILE_NAME).queueFileLog.length =
      s.queueFileLog.length + 1 := List.length_append
  rw [hs]
  refine ⟨hidle'.iterate _, ?_⟩
  rw [drainLog, hlength]
  exact drain_removed hm hfi hpath s.queueFileLog rfl hlone'

end Server

namespace Exchange

theorem drained_node (x : Exchange) (i : Bool) : (x.drained E).node i = (x.node i).drainLog E := by
  cases i <;> rfl

theorem remove_node_self (x : Exchange) (i : Bool) (r : Request) (w : RemoveDraw) :
    (x.remove E P i r w).node i = ((x.node i).removeFile E (P.config i) r w).2.2 := Partners.set_node_self _ i _

theorem remove_node_ne (x : Exchange) {i j : Bool} (h : j ≠ i) (r : Request) (w : RemoveDraw) :
    (x.remove E P i r w).node j = x.node j := Partners.set_node_ne _ h _

/-- The other node is as it was, or has done its own deletion; nothing was sent that could
    make a record. -/
theorem alsoDeleted_free {md5sum : Str} {i : Bool} {x y : Exchange} (h : AlsoDeleted E P m md5sum i x y) (hm : m ≠ [])
    {path : Str} (hidle : (x.node i).Idle m) (hlone : (x.node i).Lone E m path) :
    ((y.node i).drainLog E).Free m ∧ (∀ j, j ≠ i → y.node j = x.node j) ∧ y.wire = x.wire ∧ y.pushing = x.pushing := by
  cases h with
  | bare hbare =>
    have hfree : (x.node i).Free m := ⟨hidle, hbare⟩
    exact ⟨hfree.iterate _, fun _ _ => rfl, rfl, rfl⟩
  | deleted n iter w fi herrand hremoved hfi =>
    simp only [act, herrand, serve]
    refine ⟨?_, fun j hj => remove_node_ne _ hj _ w, rfl, rfl⟩
    rw [remove_node_self]
    exact Server.removeFile_free hm hidle hlone hremoved hfi

/-- A content deleted on one node, and on the other if that has it, with nothing of it under
    way: once the logs are drained, no run without an upload of it brings a record of it back
    to either node. -/
theorem a_delete_on_both_nodes_stays {x y z : Exchange} {i : Bool} {r : Request} {w : RemoveDraw} {fi : FileInfo}
    (hm : m ≠ []) (hsilent : x.Silent m) (hidle : ∀ j, (x.node j).Idle m) (hlone : ∀ j, ∃ path, (x.node j).Lone E m path)
    (hremoved : ((x.node i).removeFile E (P.config i) r w).1 = .removed fi) (hfi : fi.md5 = m)
    (halso : AlsoDeleted E P m (removeKey E (P.config i) r) (!i) (x.remove E P i r w) y)
    (hrun : Relation.ReflTransGen (Step E P m) (y.drained E) z) : ∀ j, (z.node j).Lacks m := by
  have hne : (!i) ≠ i := Bool.not_ne_self i
  obtain ⟨path, hhere⟩ := hlone i
  obtain ⟨path', hthere⟩ := hlone (!i)
  have hother : (x.remove E P i r w).node (!i) = x.node (!i) := remove_node_ne x hne r w
  obtain ⟨hfree, hkept, hwire, hpushing⟩ := alsoDeleted_free halso hm (hother.symm ▸ hidle (!i)) (hother.symm ▸ hthere)
  have hself : ((y.node i).drainLog E).Free m := by
    rw [hkept i hne.symm, remove_node_self]
    exact Server.removeFile_free hm (hidle i) hhere hremoved hfi
  have hgone : (y.drained E).Gone m := by
    refine ⟨⟨?_, ?_⟩, fun j => ?_⟩
    · show ∀ e ∈ y.wire, _
      rw [hwire]
      exact hsilent.wire
    · show ∀ e ∈ y.pushing, _
      rw [hpushing]
      exact hsilent.pushing
    · rw [drained_node]
      by_cases hj : j = i
      · rw [hj]
        exact hself
      · obtain rfl : j = !i := Bool.eq_not.mpr hj
        exact hfree
  exact fun j => ((gone_run hgone hrun).nodes j).lacks

def Act.Uploads : Act → Bool
  | .upload .. => true
  | _ => false

theorem steps_of_acts (l : List Act) (h : ∀ a ∈ l, a.Uploads = false) (x : Exchange) :
    Relation.ReflTransGen (Step E P m) x (l.foldl (act E P) x) := by
  induction l generalizing x with
  | nil => exact .refl
  | cons a l ih =>
    have hallowed : x.Allowed E P m a := by
      have ha := h a List.mem_cons_self
      cases a with
      | upload i r w => cases ha
      | _ => trivial
    exact .head (.act x a hallowed) (ih (fun b hb => h b (List.mem_cons_of_mem a hb)) _)

end Exchange

end

/-! ## Fixed inputs -/

def loneCheck (m path : Str) (s : Server) : Bool :=
  s.ldb.entries.all fun e =>
    match e.2 with
    | .record v => v.md5 != m || (v.fullpath == path && (e.1 == m || e.1 == E.md5 path))
    | .empty => true

theorem lone_of_check {E : Env} {m path : Str} {s : Server} (h : loneCheck E m path s = true)
    (hlog : s.queueFileLog = []) : s.Lone E m path := by
  refine ⟨fun k v hv hmd5 => ?_, fun q hq => ?_⟩
  · have hentry := List.all_eq_true.mp h _ (Store.mem_entries.mpr hv)
    simpa [hmd5] using hentry
  · rw [hlog] at hq
    cases hq

theorem Server.idle_of_nil {m : Str} {s : Server} (hto : s.queueToPeers = []) (hfrom : s.queueFromPeers = []) :
    s.Idle m := by
  constructor
  · simp [hto]
  · simp [hfrom]

theorem Exchange.silent_of_nil {m : Str} {x : Exchange} (hwire : x.wire = []) (hpushing : x.pushing = []) :
    x.Silent m := by
  constructor
  · simp [hwire]
  · simp [hpushing]

def uploadCouple : Partnership := { Partners.couple with
  config := fun i => { uploadConfig with peers := (Partners.couple.config i).peers } }

namespace Exchange

def emptyCouple : Exchange where
  node := fun i => { Server.fresh { cwd := [], nodes := ∅ } with host := uploadCouple.addr i }

def answers (text : String) : Nat → PeerAnswer := fun _ => { sync := some text.toList }

def uploadedApart : List Act :=
  let w := { UploadDraw.sample with stamp := 1546300800 }
  [.upload true helloUpload w, .push 0 (answers "502 Bad Gateway"), .loseNotice 0,
    .upload false helloUpload w, .push 0 (answers "502 Bad Gateway"), .loseNotice 0]

def helloTwice : Exchange := (uploadedApart.foldl (act Env.plain uploadCouple) emptyCouple).drained Env.plain

def helloRemoval : Request := { requestURI := "/delete".toList, body := [("md5".toList, Go.md5 "hello".toList)] }

def helloDeleted : Exchange := helloTwice.remove Env.plain uploadCouple true helloRemoval {}

/-- A repair at the node that deleted, out of the other's state `s`, and what comes of it. -/
def repaired (s : Server) : List Act :=
  [.loseErrand 0, .autoRepair true id false fun _ => ⟨some s.getStat, fun day => some (s.getMd5sForWeb id day)⟩,
    .errand 0 id {}, .post false (answers "http://a/a.txt"), .deliver 0 [], .consume true { data := some "hello".toList },
    .consumerLog true, .consumerLog true]

def helloAt (i : Bool) : FileInfo := { helloRecord with peers := [uploadCouple.addr i], timeStamp := 1546300800 }

theorem helloTwice_facts : (helloTwice.wire = [] ∧ helloTwice.pushing = []) ∧ ∀ i,
    (helloTwice.node i).queueToPeers = [] ∧ (helloTwice.node i).queueFromPeers = [] ∧
    (helloTwice.node i).queueFileLog = [] ∧
    ((helloTwice.node i).removeFile Env.plain (uploadCouple.config i) helloRemoval {}).1 = .removed (helloAt i) ∧
    loneCheck Env.plain (Go.md5 "hello".toList) helloRecord.fullpath (helloTwice.node i) = true := by
  decide +kernel

theorem helloTwice_quiet : helloTwice.Silent (Go.md5 "hello".toList) ∧
    ∀ i, (helloTwice.node i).Idle (Go.md5 "hello".toList) := by
  obtain ⟨⟨hwire, hpushing⟩, hnodes⟩ := helloTwice_facts
  refine ⟨silent_of_nil hwire hpushing, fun i => ?_⟩
  obtain ⟨hto, hfrom, -⟩ := hnodes i
  exact Server.idle_of_nil hto hfrom

theorem helloTwice_removed (i : Bool) :
    ((helloTwice.node i).removeFile Env.plain (uploadCouple.config i) helloRemoval {}).1 = .removed (helloAt i) :=
  (helloTwice_facts.2 i).2.2.2.1

theorem helloTwice_lone (i : Bool) : (helloTwice.node i).Lone Env.plain (Go.md5 "hello".toList) helloRecord.fullpath := by
  obtain ⟨-, -, hlog, -, hcheck⟩ := helloTwice_facts.2 i
  exact lone_of_check hcheck hlog

def helloGone : Exchange := (helloDeleted.act Env.plain uploadCouple (.errand 0 id {})).drained Env.plain

theorem helloDeleted_facts :
    helloRemoval.formValue "inner".toList ≠ "1".toList ∧
    helloDeleted.errands[0]? = some (false, .delete (removeKey Env.plain (uploadCouple.config true) helloRemoval)) ∧
    ((helloDeleted.node false).removeFile Env.plain (uploadCouple.config false)
      (deletion (uploadCouple.config false) (removeKey Env.plain (uploadCouple.config true) helloRemoval)) {}).1 =
        .removed (helloAt false) ∧
    ((helloDeleted.drained Env.plain).node true).getFileInfoFromLevelDB (Go.md5 "hello".toList) = none ∧
    (∀ i, ((helloDeleted.drained Env.plain).node i).queueFileLog = []) ∧
    ((helloDeleted.drained Env.plain).node false).disk.read (getFilePathByInfo (uploadCouple.config false) (helloAt false)) =
      some "hello".toList ∧
    (((repaired ((helloDeleted.drained Env.plain).node false)).foldl (act Env.plain uploadCouple)
      (helloDeleted.drained Env.plain)).node true).getFileInfoFromLevelDB (Go.md5 "hello".toList) = some (helloAt false) := by
  decide +kernel

/-- The same repair then finds nothing to ask for. -/
theorem a_repair_leaves_the_delete_alone :
    let z := (repaired (helloGone.node false)).foldl (act Env.plain uploadCouple) helloGone
    (z.node true).Lacks (Go.md5 "hello".toList) ∧ (z.node false).Lacks (Go.md5 "hello".toList) := by
  have hrun : Relation.ReflTransGen (Step Env.plain uploadCouple (Go.md5 "hello".toList)) helloGone
      ((repaired (helloGone.node false)).foldl (act Env.plain uploadCouple) helloGone) :=
    steps_of_acts _ (by simp [repaired, Act.Uploads]) _
  obtain ⟨-, herrand, hremoved, -⟩ := helloDeleted_facts
  have hlacks := a_delete_on_both_nodes_stays (i := true) (Go.md5_ne_nil _)
    helloTwice_quiet.1 helloTwice_quiet.2 (fun j => ⟨_, helloTwice_lone j⟩) (helloTwice_removed true) rfl
    (.deleted 0 id {} (helloAt false) herrand hremoved rfl) hrun
  exact ⟨hlacks true, hlacks false⟩

/-- The delete is lost on its way to the other node, which still has its file: a repair finds
    the digest missing and asks for it, and the record is back. -/
theorem a_repair_undoes_the_delete :
    (∀ i, (helloTwice.node i).Idle (Go.md5 "hello".toList)) ∧ helloTwice.Silent (Go.md5 "hello".toList) ∧
    helloRemoval.formValue "inner".toList ≠ "1".toList ∧
    ((helloTwice.node true).removeFile Env.plain (uploadCouple.config true) helloRemoval {}).1 = .removed (helloAt true) ∧
    (helloAt true).md5 = Go.md5 "hello".toList ∧
    ((helloDeleted.drained Env.plain).node true).getFileInfoFromLevelDB (Go.md5 "hello".toList) = none ∧
    (∀ i, ((helloDeleted.drained Env.plain).node i).queueFileLog = []) ∧
    ((helloDeleted.drained Env.plain).node false).disk.read (getFilePathByInfo (uploadCouple.config false) (helloAt false)) =
      some "hello".toList ∧
    ∃ z, Relation.ReflTransGen (Step Env.plain uploadCouple (Go.md5 "hello".toList)) (helloDeleted.drained Env.plain) z ∧
      (z.node true).getFileInfoFromLevelDB (Go.md5 "hello".toList) = some (helloAt false) := by
  obtain ⟨hform, -, -, hgone, hlogs, hfile, hback⟩ := helloDeleted_facts
  refine ⟨helloTwice_quiet.2, helloTwice_quiet.1, hform, helloTwice_removed true, rfl, hgone, hlogs, hfile, _,
    steps_of_acts _ ?_ _, hback⟩
  simp [repaired, Act.Uploads]

/-! ### What is under way -/

def deletedOnBoth (x : Exchange) : Exchange :=
  ((x.remove Env.plain uploadCouple true helloRemoval {}).act Env.plain uploadCouple (.errand 0 id {})).drained Env.plain

/-- As `helloTwice`, but the first push has failed and waits to be tried again. -/
def pushWaits : Exchange :=
  let w := { UploadDraw.sample with stamp := 1546300800 }
  ([.upload true helloUpload w, .push 0 fun _ => {}, .loseNotice 0, .upload false helloUpload w,
    .push 0 (answers "502 Bad Gateway"), .loseNotice 0].foldl (act Env.plain uploadCouple) emptyCouple).drained Env.plain

/-- As `helloTwice`, but the notice of the second push is still on its way. -/
def noticeUnderWay : Exchange :=
  let w := { UploadDraw.sample with stamp := 1546300800 }
  ([.upload true helloUpload w, .push 0 (answers "502 Bad Gateway"), .loseNotice 0, .upload false helloUpload w,
    .push 0 (answers "502 Bad Gateway")].foldl (act Env.plain uploadCouple) emptyCouple).drained Env.plain

/-- As `helloTwice`, but the second node's file is `b.txt`, and its notice has been taken: the
    first node has the content twice. -/
def heldTwice : Exchange :=
  let w := { UploadDraw.sample with stamp := 1546300800 }
  ([.upload true helloUpload w, .push 0 (answers "502 Bad Gateway"), .loseNotice 0,
    .upload false (fileUpload "b.txt".toList [] "hello".toList) w, .push 0 (answers "http://a/b.txt"), .deliver 0 [],
    .consume true { data := some "hello".toList }].foldl (act Env.plain uploadCouple) emptyCouple).drained Env.plain

/-- Both nodes have deleted by the digest, which leads to `b.txt`: the record of `a.txt` stays
    under the digest of its path. -/
theorem a_second_file_outlives_the_delete :
    heldTwice.Silent (Go.md5 "hello".toList) ∧ (∀ i, (heldTwice.node i).Idle (Go.md5 "hello".toList)) ∧
    (∀ i, ∃ fi, ((heldTwice.node i).removeFile Env.plain (uploadCouple.config i) helloRemoval {}).1 = .removed fi ∧
      fi.md5 = Go.md5 "hello".toList) ∧
    (∀ i, ((deletedOnBoth heldTwice).node i).getFileInfoFromLevelDB (Go.md5 "hello".toList) = none) ∧
    ¬ ((deletedOnBoth heldTwice).node true).Lacks (Go.md5 "hello".toList) := by
  obtain ⟨⟨hwire, hpushing⟩, hnodes, hgone, hleft⟩ : (heldTwice.wire = [] ∧ heldTwice.pushing = []) ∧
      (∀ i, (heldTwice.node i).queueToPeers = [] ∧ (heldTwice.node i).queueFromPeers = [] ∧
        ((heldTwice.node i).removeFile Env.plain (uploadCouple.config i) helloRemoval {}).1 =
          .removed { helloAt i with
            name := "b.txt".toList
            peers := if i then [uploadCouple.addr false] else [uploadCouple.addr false, uploadCouple.addr true] }) ∧
      (∀ i, ((deletedOnBoth heldTwice).node i).getFileInfoFromLevelDB (Go.md5 "hello".toList) = none) ∧
      ((deletedOnBoth heldTwice).node true).getFileInfoFromLevelDB (Go.md5 helloRecord.fullpath) = some (helloAt true) := by
    decide +kernel
  refine ⟨silent_of_nil hwire hpushing, fun i => ?_, fun i => ⟨_, (hnodes i).2.2, rfl⟩, hgone, fun hlacks => ?_⟩
  · obtain ⟨hto, hfrom, -⟩ := hnodes i
    exact Server.idle_of_nil hto hfrom
  · exact hlacks _ _ (Server.getFileInfo_eq_some.mp hleft) rfl

def worldUpload : UploadRequest := fileUpload "a.txt".toList [] "world".toList

theorem steps_of_world {x : Exchange} {i : Bool}
    (h : ((x.node i).upload Env.plain (uploadCouple.config i) worldUpload .sample).1.recorded.map (·.md5) ≠
      some (Go.md5 "hello".toList)) (l : List Act) (hl : ∀ a ∈ l, a.Uploads = false) :
    Relation.ReflTransGen (Step Env.plain uploadCouple (Go.md5 "hello".toList)) x
      ((Act.upload i worldUpload .sample :: l).foldl (act Env.plain uploadCouple) x) := by
  have hallowed : x.Allowed Env.plain uploadCouple (Go.md5 "hello".toList) (.upload i worldUpload .sample) := by
    intro fi hrec hmd5
    refine h ?_
    rw [hrec, Option.map_some, hmd5]
  exact .head (.act x _ hallowed) (steps_of_acts l hl _)

/-- Both nodes have deleted, but a push waits at one: once another file stands in the deleted
    one's place the push is tried again, and the peer that takes it is noted on a record that
    is saved with it. -/
theorem a_waiting_push_undoes_the_delete :
    pushWaits.Silent (Go.md5 "hello".toList) ∧
    (∀ i, ∃ fi, ((pushWaits.node i).removeFile Env.plain (uploadCouple.config i) helloRemoval {}).1 = .removed fi) ∧
    (∀ i, ((deletedOnBoth pushWaits).node i).getFileInfoFromLevelDB (Go.md5 "hello".toList) = none) ∧
    ∃ z, Relation.ReflTransGen (Step Env.plain uploadCouple (Go.md5 "hello".toList)) (deletedOnBoth pushWaits) z ∧
      ((z.node true).getFileInfoFromLevelDB (Go.md5 "hello".toList)).isSome = true := by
  obtain ⟨⟨hwire, hpushing⟩, hremoved, hgone, hother, hback⟩ : (pushWaits.wire = [] ∧ pushWaits.pushing = []) ∧
      (∀ i, ((pushWaits.node i).removeFile Env.plain (uploadCouple.config i) helloRemoval {}).1 = .removed (helloAt i)) ∧
      (∀ i, ((deletedOnBoth pushWaits).node i).getFileInfoFromLevelDB (Go.md5 "hello".toList) = none) ∧
      (((deletedOnBoth pushWaits).node true).upload Env.plain (uploadCouple.config true) worldUpload
        .sample).1.recorded.map (·.md5) ≠ some (Go.md5 "hello".toList) ∧
      ((([.upload true worldUpload .sample, .post true (answers "http://b/a.txt")].foldl (act Env.plain uploadCouple)
        (deletedOnBoth pushWaits)).node true).getFileInfoFromLevelDB (Go.md5 "hello".toList)).isSome = true := by
    decide +kernel
  refine ⟨silent_of_nil hwire hpushing, fun i => ⟨_, hremoved i⟩, hgone, _, steps_of_world hother _ ?_, hback⟩
  simp [Act.Uploads]

/-- Both nodes have deleted, but a notice is on its way: what is fetched for it is only
    measured, so another file of that length in the deleted one's place brings the record
    back. -/
theorem a_notice_under_way_undoes_the_delete :
    (∀ i, (noticeUnderWay.node i).Idle (Go.md5 "hello".toList)) ∧
    (∀ i, ∃ fi, ((noticeUnderWay.node i).removeFile Env.plain (uploadCouple.config i) helloRemoval {}).1 = .removed fi) ∧
    (∀ i, ((deletedOnBoth noticeUnderWay).node i).getFileInfoFromLevelDB (Go.md5 "hello".toList) = none) ∧
    ∃ z, Relation.ReflTransGen (Step Env.plain uploadCouple (Go.md5 "hello".toList)) (deletedOnBoth noticeUnderWay) z ∧
      ((z.node true).getFileInfoFromLevelDB (Go.md5 "hello".toList)).isSome = true := by
  obtain ⟨hnodes, hgone, hother, hback⟩ :
      (∀ i, (noticeUnderWay.node i).queueToPeers = [] ∧ (noticeUnderWay.node i).queueFromPeers = [] ∧
        ((noticeUnderWay.node i).removeFile Env.plain (uploadCouple.config i) helloRemoval {}).1 =
          .removed (helloAt i)) ∧
      (∀ i, ((deletedOnBoth noticeUnderWay).node i).getFileInfoFromLevelDB (Go.md5 "hello".toList) = none) ∧
      (((deletedOnBoth noticeUnderWay).node false).upload Env.plain (uploadCouple.config false) worldUpload
        .sample).1.recorded.map (·.md5) ≠ some (Go.md5 "hello".toList) ∧
      ((([.upload false worldUpload .sample, .deliver 0 [], .consume true { data := some "world".toList },
        .consumerLog true, .consumerLog true].foldl (act Env.plain uploadCouple)
          (deletedOnBoth noticeUnderWay)).node true).getFileInfoFromLevelDB (Go.md5 "hello".toList)).isSome = true := by
    decide +kernel
  refine ⟨fun i => ?_, fun i => ⟨_, (hnodes i).2.2⟩, hgone, _, steps_of_world hother _ ?_, hback⟩
  · obtain ⟨hto, hfrom, -⟩ := hnodes i
    exact Server.idle_of_nil hto hfrom
  · simp [Act.Uploads]

end Exchange

end GoFastdfs
