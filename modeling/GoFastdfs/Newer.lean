/-
  GoFastdfs.Newer — an announced copy against a newer one (`SyncFileInfo` of
  `http_upload.go`, `DownloadFromPeer` and `ConsumerDownLoad` of `http_download.go`,
  `postFileToPeer` and `ConsumerPostToPeer` of `fileserver.go`).

  Two nodes are each other's only peer. What one sends the other are notices
  (`syncfile_info`), which are on the wire until they are taken; what is taken is queued
  and consumed later. A node that is told of an older copy than its own sets the record's
  time to its own file's and pushes it. The record still names the announcer among its
  `Peers`, and a push passes over every peer that the record names.

  Proved: whatever the requests bring, the exchange comes to an end (`exchange_settles`)
  without a change to either disk (`stage_run`), so the newer copy is on both nodes then
  exactly if both had the same bytes before (`newer_copy_wins_iff`).
-/

import GoFastdfs.Fetch
import GoFastdfs.Runs

namespace GoFastdfs

open Go (Str)

variable (E : Env)

/-! ## Messages -/

namespace Server

def notices (c : Config) (entry : FileInfo) : Server → FileInfo → List (Str × PeerAnswer) → List (Str × FileInfo)
  | _, _, [] => []
  | s, fi, (peer, a) :: rest =>
    let sent :=
      if fi.peers.contains peer then [] else
      match s.disk.stat (postPath c fi) with
      | none => []
      | some n =>
        if fi.offSet ≠ -2 ∧ c.enableDistinctFile = true ∧ a.exist.md5 ≠ [] then [] else [(peer, (sized fi n).persist)]
    let r := s.postToPeer E c entry fi peer a
    sent ++ notices c entry r.1 r.2.1 rest

def postNotices (c : Config) (s : Server) (fi : FileInfo) (answer : Nat → PeerAnswer) : List (Str × FileInfo) :=
  notices E c fi s fi (c.peers.zipIdx.map fun x => (x.1, answer x.2))

/-- The notices of `DownloadFromPeer`: of the record it pushes where the file here is newer. -/
def downloadNotices (c : Config) (s : Server) (fi : FileInfo) (w : Download) : List (Str × FileInfo) :=
  if (s.downloadFromPeer E c fi w).2 = .newer then
    match s.disk.stat (getFilePathByInfo c fi) with
    | none => []
    | some n => s.postNotices E c { fi with retry := fi.retry + 1, timeStamp := n.modTime w.now } w.answer
  else []

end Server

/-! ## Two nodes -/

/-- Two nodes and the notices on the wire, each with the node it is for. -/
structure Partners where
  node : Bool → Server
  wire : List (Bool × FileInfo) := []

/-- The nodes' configurations and their addresses. -/
structure Partnership where
  config : Bool → Config
  addr : Bool → Str

namespace Partners

variable (P : Partnership)

def set (p : Partners) (i : Bool) (s : Server) : Partners := { p with node := fun j => if j = i then s else p.node j }

def send (p : Partners) (i : Bool) (l : List (Str × FileInfo)) : Partners :=
  { p with wire := p.wire ++ (l.filter (·.1 == P.addr (!i))).map fun x => (!i, x.2) }

def deliver (p : Partners) (i : Bool) (fi : FileInfo) (host : Str) : Partners :=
  p.set i ((p.node i).syncFileInfo E (P.config i) fi host).1

def consume (p : Partners) (i : Bool) (w : Download) : Partners :=
  match (p.node i).queueFromPeers with
  | [] => p
  | fi :: rest =>
    let s := { p.node i with queueFromPeers := rest }
    match downloadPeer s.host fi with
    | none => p.set i s
    | some _ =>
      (p.set i (s.downloadFromPeer E (P.config i) fi w).1).send P i (s.downloadNotices E (P.config i) fi w)

def post (p : Partners) (i : Bool) (answer : Nat → PeerAnswer) : Partners :=
  match (p.node i).queueToPeers with
  | [] => p
  | fi :: rest =>
    let s := { p.node i with queueToPeers := rest }
    (p.set i (s.postFileToPeer E (P.config i) fi answer).1).send P i (s.postNotices E (P.config i) fi answer)

/-- Any node's next turn, or the delivery of any notice; what requests bring is left open. -/
inductive Step : Partners → Partners → Prop
  | deliver (p : Partners) (before after : List (Bool × FileInfo)) (i : Bool) (fi : FileInfo) (host : Str) :
      p.wire = before ++ (i, fi) :: after → Step p ({ p with wire := before ++ after }.deliver E P i fi host)
  | consume (p : Partners) (i : Bool) (w : Download) : Step p (p.consume E P i w)
  | post (p : Partners) (i : Bool) (answer : Nat → PeerAnswer) : Step p (p.post E P i answer)
  | consumerLog (p : Partners) (i : Bool) : Step p (p.set i ((p.node i).consumerLog E))

/-- All messages and queue entries have been processed. -/
structure Settled (p : Partners) : Prop where
  wire : p.wire = []
  queues : ∀ i, (p.node i).queueFromPeers = [] ∧ (p.node i).queueToPeers = [] ∧ (p.node i).queueFileLog = []

/-- Node `false` has announced its copy, with the bytes `y` and the time `u`, by the record `fi` as
    it is read on the other side; node `true` has a newer one, with the bytes `x` and the time `t`.
    Nothing else is under way. -/
structure Announced (p : Partners) (fi : FileInfo) (x y : Str) (t u : Int) : Prop where
  peers : ∀ i, (P.config i).peers = [P.addr (!i)]
  host : ∀ i, (p.node i).host = P.addr i
  idle : ∀ i, (p.node i).queueFromPeers = [] ∧ (p.node i).queueToPeers = [] ∧ (p.node i).queueFileLog = []
  wire : p.wire = [(true, fi)]
  offSet : fi.offSet = -2
  timeStamp : fi.timeStamp = u
  named : fi.peers = [P.addr false]
  here : (p.node true).disk.stat (getFilePathByInfo (P.config true) fi) = some (.file x t)
  there : (p.node false).disk.stat (getFilePathByInfo (P.config false) fi) = some (.file y u)
  newer : u < t

def BothHold (p : Partners) (fi : FileInfo) (x : Str) : Prop :=
  ∀ i, (p.node i).disk.read (getFilePathByInfo (P.config i) fi) = some x

/-! ## The exchange -/

variable {E P}

@[simp] theorem set_node_self (p : Partners) (i : Bool) (s : Server) : (p.set i s).node i = s := by simp [set]

theorem set_node_ne (p : Partners) {i j : Bool} (h : j ≠ i) (s : Server) : (p.set i s).node j = p.node j := by
  simp [set, h]

theorem postLoop_named (c : Config) (entry : FileInfo) (s : Server) (fi : FileInfo) :
    ∀ l : List (Str × PeerAnswer), (∀ x ∈ l, x.1 ∈ fi.peers) →
      Server.postLoop E c entry s fi l = (s, fi, []) ∧ Server.notices E c entry s fi l = []
  | [], _ => ⟨rfl, rfl⟩
  | (peer, a) :: rest, h => by
    have hpeer : peer ∈ fi.peers := h _ List.mem_cons_self
    have hturn : s.postToPeer E c entry fi peer a = (s, fi, []) := if_pos hpeer
    obtain ⟨h1, h2⟩ := postLoop_named c entry s fi rest fun x hx => h x (List.mem_cons_of_mem _ hx)
    constructor
    · simp only [Server.postLoop, hturn, h1, List.nil_append]
    · simp only [Server.notices, hturn, h2, if_pos (List.contains_iff_mem.mpr hpeer), List.nil_append]

/-- Told of an older copy by its only peer, a node does nothing. -/
theorem downloadFromPeer_newer {c : Config} {s : Server} {fi : FileInfo} {x : Str} {t : Int} (w : Download)
    (hoff : fi.offSet = -2) (hstat : s.disk.stat (getFilePathByInfo c fi) = some (.file x t)) (ht : fi.timeStamp < t)
    (hpeers : ∀ peer ∈ c.peers, peer ∈ fi.peers) :
    (s.downloadFromPeer E c fi w).1 = s ∧ s.downloadNotices E c fi w = [] := by
  have hloop := fun fi' (hfi' : fi'.peers = fi.peers) =>
    postLoop_named (E := E) c fi' s fi' (c.peers.zipIdx.map fun x => (x.1, w.answer x.2)) (by
      intro x hx
      obtain ⟨y, hy, rfl⟩ := List.mem_map.mp hx
      rw [hfi']
      exact hpeers y.1 (List.fst_mem_of_mem_zipIdx hy))
  constructor
  · unfold Server.downloadFromPeer
    split
    · rfl
    split
    · rfl
    dsimp only
    rw [if_neg (by simp [hoff]), if_pos (Or.inr hoff)]
    have hpath : getFilePathByInfo c { fi with retry := fi.retry + 1 } = getFilePathByInfo c fi := rfl
    rw [hpath, hstat]
    dsimp only
    rw [if_pos (show fi.timeStamp < (Node.file x t).modTime w.now from ht)]
    exact congrArg Prod.fst (hloop { fi with retry := fi.retry + 1, timeStamp := t } rfl).1
  · unfold Server.downloadNotices
    split
    · rw [hstat]
      exact (hloop { fi with retry := fi.retry + 1, timeStamp := t } rfl).2
    · rfl

inductive Stage (p : Partners) (fi : FileInfo) : Prop
  | sent : p.wire = [(true, fi)] → (∀ i, (p.node i).queueFromPeers = []) → Stage p fi
  | queued : p.wire = [] → (p.node true).queueFromPeers = [fi] → (p.node false).queueFromPeers = [] → Stage p fi
  | done : p.wire = [] → (∀ i, (p.node i).queueFromPeers = []) → Stage p fi

/-- What holds throughout: the disks are as they were, and nothing is to be pushed. -/
structure Quiet (p0 p : Partners) : Prop where
  disk : ∀ i, (p.node i).disk = (p0.node i).disk
  idle : ∀ i, (p.node i).queueToPeers = [] ∧ (p.node i).queueFileLog = []

theorem Quiet.set {p0 p : Partners} (h : Quiet p0 p) {i : Bool} {s : Server} (hd : s.disk = (p.node i).disk)
    (hq : s.queueToPeers = [] ∧ s.queueFileLog = []) : Quiet p0 (p.set i s) := by
  constructor
  · intro j
    by_cases e : j = i
    · subst e
      rw [set_node_self, hd]
      exact h.disk j
    · rw [set_node_ne p e]
      exact h.disk j
  · intro j
    by_cases e : j = i
    · subst e
      rw [set_node_self]
      exact hq
    · rw [set_node_ne p e]
      exact h.idle j

theorem syncFileInfo_migrated {c : Config} {s : Server} {fi : FileInfo} (hoff : fi.offSet = -2) (host : Str) :
    (s.syncFileInfo E c fi host).1 = (s.saveFileInfoToLevelDB E fi.md5 fi .ldb).appendToDownloadQueue fi := by
  simp only [Server.syncFileInfo, if_pos hoff]

variable {p0 : Partners} {fi : FileInfo} {x y : Str} {t u : Int}

theorem stage_deliver {p : Partners} (h : Announced P p0 fi x y t u) (hq : Quiet p0 p) (hs : Stage p fi)
    {before after : List (Bool × FileInfo)} {i : Bool} {fi' : FileInfo} (host : Str)
    (hwire : p.wire = before ++ (i, fi') :: after) :
    Quiet p0 ({ p with wire := before ++ after }.deliver E P i fi' host) ∧
      Stage ({ p with wire := before ++ after }.deliver E P i fi' host) fi := by
  have hone : p.wire = [(true, fi)] ∧ ∀ i, (p.node i).queueFromPeers = [] := by
    cases hs with
    | sent hw hfrom => exact ⟨hw, hfrom⟩
    | queued hw _ _ =>
      rw [hw] at hwire
      cases before <;> cases hwire
    | done hw _ =>
      rw [hw] at hwire
      cases before <;> cases hwire
  obtain ⟨hw, hfrom⟩ := hone
  obtain ⟨rfl, rfl, hpair⟩ : before = [] ∧ after = [] ∧ (i, fi') = (true, fi) := by
    rw [hw] at hwire
    cases before with
    | nil =>
      obtain ⟨h1, h2⟩ := List.cons.inj hwire
      exact ⟨rfl, h2.symm, h1.symm⟩
    | cons z before =>
      have := (List.cons.inj hwire).2
      cases before <;> cases this
  cases hpair
  unfold deliver
  rw [syncFileInfo_migrated h.offSet]
  constructor
  · have hq' : Quiet p0 { p with wire := [] ++ [] } := ⟨hq.disk, hq.idle⟩
    exact hq'.set rfl (hq.idle true)
  · refine .queued rfl ?_ (hfrom false)
    rw [set_node_self]
    exact congrArg (· ++ [fi]) (hfrom true)

theorem consume_queued {p : Partners} (h : Announced P p0 fi x y t u) (hq : Quiet p0 p)
    (htrue : (p.node true).queueFromPeers = [fi]) (w : Download) :
    p.consume E P true w = p.set true { p.node true with queueFromPeers := [] } := by
  have hstat : (p.node true).disk.stat (getFilePathByInfo (P.config true) fi) = some (.file x t) := by
    rw [hq.disk true]
    exact h.here
  have hnothing := downloadFromPeer_newer (E := E) (c := P.config true) (s := { p.node true with queueFromPeers := [] })
    w h.offSet hstat (by rw [h.timeStamp]; exact h.newer)
    (by rw [h.peers true]; rw [h.named]; exact fun _ h => h)
  unfold consume
  rw [htrue]
  dsimp only
  split
  · rfl
  · rw [hnothing.1, hnothing.2]
    simp [send, set]

theorem stage_consume {p : Partners} (h : Announced P p0 fi x y t u) (hq : Quiet p0 p) (hs : Stage p fi)
    (i : Bool) (w : Download) : Quiet p0 (p.consume E P i w) ∧ Stage (p.consume E P i w) fi := by
  have hempty : (p.node i).queueFromPeers = [] → Quiet p0 (p.consume E P i w) ∧ Stage (p.consume E P i w) fi := by
    intro hnil
    unfold consume
    rw [hnil]
    exact ⟨hq, hs⟩
  cases hs with
  | sent _ hfrom => exact hempty (hfrom i)
  | done _ hfrom => exact hempty (hfrom i)
  | queued hw htrue hfalse =>
    cases i with
    | false => exact hempty hfalse
    | true =>
      rw [consume_queued h hq htrue]
      refine ⟨hq.set rfl (hq.idle true), .done hw fun i => ?_⟩
      cases i with
      | true => rw [set_node_self]
      | false =>
        rw [set_node_ne p (by decide)]
        exact hfalse

theorem stage_step {p p' : Partners} (h : Announced P p0 fi x y t u) (hstep : Step E P p p') (hq : Quiet p0 p)
    (hs : Stage p fi) : Quiet p0 p' ∧ Stage p' fi := by
  cases hstep with
  | deliver before after i fi' host hwire => exact stage_deliver h hq hs host hwire
  | consume i w => exact stage_consume h hq hs i w
  | post i answer =>
    have hsame : p.post E P i answer = p := by
      unfold post
      rw [(hq.idle i).1]
    rw [hsame]
    exact ⟨hq, hs⟩
  | consumerLog i =>
    have hsame : (p.node i).consumerLog E = p.node i := by
      unfold Server.consumerLog
      rw [(hq.idle i).2]
    have hset : p.set i (p.node i) = p := by
      cases p with
      | mk node wire =>
        simp only [Partners.set, Partners.mk.injEq, and_true]
        funext j
        split
        · rename_i e
          rw [e]
        · rfl
    rw [hsame, hset]
    exact ⟨hq, hs⟩

theorem Announced.start (h : Announced P p0 fi x y t u) : Quiet p0 p0 ∧ Stage p0 fi :=
  ⟨⟨fun _ => rfl, fun i => (h.idle i).2⟩, .sent h.wire fun i => (h.idle i).1⟩

/-- The disks stay as they were, however far the exchange has come. -/
theorem stage_run {p : Partners} (h : Announced P p0 fi x y t u) (hrun : Relation.ReflTransGen (Step E P) p0 p) :
    Quiet p0 p ∧ Stage p fi := by
  induction hrun with
  | refl => exact h.start
  | tail _ hstep ih => exact stage_step h hstep ih.1 ih.2

/-- The exchange comes to an end. -/
theorem exchange_settles (h : Announced P p0 fi x y t u) :
    ∃ p, Relation.ReflTransGen (Step E P) p0 p ∧ p.Settled := by
  obtain ⟨hq0, hs0⟩ := h.start
  have hdeliver : Step E P p0 ({ p0 with wire := [] ++ [] }.deliver E P true fi []) :=
    .deliver p0 [] [] true fi [] h.wire
  obtain ⟨hq1, hs1⟩ := stage_step h hdeliver hq0 hs0
  have hqueued : (({ p0 with wire := [] ++ [] }.deliver E P true fi []).node true).queueFromPeers = [fi] := by
    unfold deliver
    rw [syncFileInfo_migrated h.offSet, set_node_self]
    exact congrArg (· ++ [fi]) (h.idle true).1
  generalize ({ p0 with wire := [] ++ [] }.deliver E P true fi []) = p1 at hdeliver hq1 hs1 hqueued
  have hconsume : Step E P p1 (p1.consume E P true {}) := .consume p1 true {}
  refine ⟨_, .tail (.single hdeliver) hconsume, ?_⟩
  obtain ⟨hwire, hfalse⟩ : p1.wire = [] ∧ (p1.node false).queueFromPeers = [] := by
    cases hs1 with
    | sent _ hfrom =>
      rw [hfrom true] at hqueued
      cases hqueued
    | queued hw _ hfalse => exact ⟨hw, hfalse⟩
    | done hw hfrom => exact ⟨hw, hfrom false⟩
  rw [consume_queued h hq1 hqueued]
  refine ⟨hwire, fun i => ?_⟩
  cases i with
  | true =>
    rw [set_node_self]
    exact ⟨rfl, hq1.idle true⟩
  | false =>
    rw [set_node_ne p1 (by decide)]
    exact ⟨hfalse, hq1.idle false⟩

/-- When the exchange has come to an end, both nodes hold the newer bytes exactly if the
    older copy had them before. -/
theorem newer_copy_wins_iff (h : Announced P p0 fi x y t u) :
    (∃ p, Relation.ReflTransGen (Step E P) p0 p ∧ p.Settled) ∧
      ((∀ p, Relation.ReflTransGen (Step E P) p0 p → p.Settled → p.BothHold P fi x) ↔ y = x) := by
  have hread : ∀ p, Relation.ReflTransGen (Step E P) p0 p →
      (p.node true).disk.read (getFilePathByInfo (P.config true) fi) = some x ∧
      (p.node false).disk.read (getFilePathByInfo (P.config false) fi) = some y := by
    intro p hrun
    have hq := (stage_run h hrun).1
    unfold Disk.read
    rw [hq.disk true, hq.disk false, h.here, h.there]
    exact ⟨rfl, rfl⟩
  refine ⟨exchange_settles h, fun hall => ?_, fun hyx p hrun _ i => ?_⟩
  · obtain ⟨p, hrun, hsettled⟩ := exchange_settles (E := E) h
    have hy := (hread p hrun).2
    rw [hall p hrun hsettled false] at hy
    exact (Option.some.inj hy).symm
  · cases i with
    | true => exact (hread p hrun).1
    | false =>
      rw [← hyx]
      exact (hread p hrun).2

/-! ## Fixed inputs -/

def couple : Partnership where
  config := fun i => { peers := [if i then "http://b".toList else "http://a".toList] }
  addr := fun i => if i then "http://a".toList else "http://b".toList

def sharedFile : FileInfo :=
  { name := "p.txt".toList, path := "files/default".toList, md5 := "m".toList, peers := ["http://b".toList], offSet := -2
    timeStamp := 1, size := 3 }

def sharedDisk (data : Str) (time : Int) : Disk :=
  let d : Disk := { cwd := [], nodes := ∅ }
  ((d.mkdirAll "files/default".toList).create "files/default/p.txt".toList data time).getD d

def coupleStart (y : Str) : Partners where
  node := fun i => if i then { disk := sharedDisk "new".toList 2, host := "http://a".toList }
    else { disk := sharedDisk y 1, host := "http://b".toList }
  wire := [(true, sharedFile)]

theorem coupleStart_announced {y : Str}
    (hy : (sharedDisk y 1).stat "files/default/p.txt".toList = some (.file y 1)) :
    Announced couple (coupleStart y) sharedFile "new".toList y 2 1 := by
  have hnew : (sharedDisk "new".toList 2).stat "files/default/p.txt".toList = some (.file "new".toList 2) := by
    decide +kernel
  have hpath : ∀ i, getFilePathByInfo (couple.config i) sharedFile = "files/default/p.txt".toList := by decide +kernel
  refine ⟨fun i => ?_, fun i => ?_, fun i => ?_, rfl, rfl, rfl, rfl, ?_, ?_, by decide⟩
  · cases i <;> simp only [couple, Bool.not_true, Bool.not_false, if_true, Bool.false_eq_true, if_false]
  · cases i <;> simp only [coupleStart, couple, if_true, Bool.false_eq_true, if_false]
  · cases i <;> simp only [coupleStart, if_true, Bool.false_eq_true, if_false, and_self]
  · rw [hpath]
    simpa only [coupleStart, if_true] using hnew
  · rw [hpath]
    simpa only [coupleStart, Bool.false_eq_true, if_false] using hy

/-- The record names the announcer, so the newer copy is not announced to it. -/
theorem the_newer_copy_stays_alone : ∃ p, Relation.ReflTransGen (Step Env.plain couple) (coupleStart "old".toList) p ∧
    p.Settled ∧ ¬ p.BothHold couple sharedFile "new".toList := by
  have h := coupleStart_announced (y := "old".toList) (by decide +kernel)
  obtain ⟨p, hrun, hsettled⟩ := exchange_settles (E := Env.plain) h
  refine ⟨p, hrun, hsettled, fun hboth => ?_⟩
  have hold : (p.node false).disk.read (getFilePathByInfo (couple.config false) sharedFile) = some "old".toList := by
    unfold Disk.read
    rw [(stage_run h hrun).1.disk false, h.there]
  rw [hboth false] at hold
  exact absurd hold (by decide)

theorem an_equal_copy_is_on_both : ∃ p, Relation.ReflTransGen (Step Env.plain couple) (coupleStart "new".toList) p ∧
    p.Settled ∧ p.BothHold couple sharedFile "new".toList := by
  have h := newer_copy_wins_iff (E := Env.plain) (coupleStart_announced (y := "new".toList) (by decide +kernel))
  obtain ⟨p, hrun, hsettled⟩ := h.1
  exact ⟨p, hrun, hsettled, h.2.mpr rfl p hrun hsettled⟩

end Partners

end GoFastdfs
