/-
  GoFastdfs.Queues — the two sync queues (`ConsumerPostToPeer`, `ConsumerDownLoad`,
  `AppendToQueue`, `AppendToDownloadQueue`).

  Both are bounded channels of `CONST_QUEUE_SIZE` entries drained by `SyncWorker`
  consumers. A consumer whose peer fails puts the entry back itself, through the same
  append that everybody else uses. What its turn does to the queue is read off
  `postToPeer` and `downloadFromPeer`: the state of the node and the peers' answers may
  be any.

  Proved: while a queue has room whenever all of its consumers come to put an entry back,
  no run wedges it (`sync_queues_never_wedge`); where peers keep failing, both queues wedge
  at the sizes the server runs with (`failing_peers_wedge_the_queues`).
-/

import GoFastdfs.Backpressure
import GoFastdfs.Fetch

namespace GoFastdfs

open Go (Str)
open Backpressure (Next Program Step Roomy Wedged)

variable (E : Env) (c : Config)

def CONST_QUEUE_SIZE : Nat := 10000

/-- `postFileToPeer` at one entry, with the peers left in its loop. -/
def postProgram : Program FileInfo (FileInfo × List Str) where
  start fi := (fi, c.peers)
  next k act :=
    match k with
    | (_, []) => act = .done
    | (fi, peer :: peers) => ∃ (s : Server) (a : PeerAnswer),
      let r := s.postToPeer E c fi fi peer a
      (r.1.queueToPeers = s.queueToPeers ∧ act = .work (r.2.1, peers)) ∨
        ∃ x, r.1.queueToPeers = s.queueToPeers ++ [x] ∧ act = .append x (r.2.1, peers)

/-- A turn of `ConsumerDownLoad`, over once `DownloadFromPeer` returns. -/
def downloadProgram (host : Str) : Program FileInfo (Option FileInfo) where
  start fi := if (downloadPeer host fi).isSome then some fi else none
  next k act :=
    match k with
    | none => act = .done
    | some fi => ∃ (s : Server) (w : Download),
      let r := (s.downloadFromPeer E c fi w).1
      (r.queueFromPeers = s.queueFromPeers ∧ act = .done) ∨
        ∃ x, r.queueFromPeers = s.queueFromPeers ++ [x] ∧ act = .append x none

/-- Neither queue ever has all of its consumers waiting in their own append, if there is room
    on it, besides what producers are sending, whenever the last of the consumers comes to put
    an entry back and whenever a producer comes past its wait while they all do. -/
theorem sync_queues_never_wedge (host : Str) {ι ο : Type} [DecidableEq ι] [DecidableEq ο] [Fintype ο] (size : Nat) :
    (∀ s : Backpressure.State FileInfo (FileInfo × List Str) ι ο,
      Relation.ReflTransGen (fun s s' => Step (postProgram E c) size s s' ∧ Roomy size s s') Backpressure.init s →
        ¬ Wedged size s) ∧
    ∀ s : Backpressure.State FileInfo (Option FileInfo) ι ο,
      Relation.ReflTransGen (fun s s' => Step (downloadProgram E c host) size s s' ∧ Roomy size s s') Backpressure.init s →
        ¬ Wedged size s :=
  ⟨fun _ h => Backpressure.never_wedged h, fun _ h => Backpressure.never_wedged h⟩

/-- An entry whose file is there goes back on the queue when its peer does not answer. -/
theorem post_puts_back {fi : FileInfo} {peer : Str} {peers : List Str} (hp : peer ∉ fi.peers) (hr : fi.retry ≤ c.retryCount)
    (hsize : fi.size ≠ 0) {s : Server} (hf : s.disk.fileExists (postPath c fi) = true) :
    (postProgram E c).next (fi, peer :: peers)
      (.append { fi with retry := fi.retry + 1 } ({ fi with retry := fi.retry + 1 }, peers)) := by
  obtain ⟨n, hn⟩ := Option.isSome_iff_exists.mp hf
  refine ⟨s, {}, Or.inr ⟨{ fi with retry := fi.retry + 1 }, ?_, ?_⟩⟩
  all_goals simp [Server.postToPeer, if_neg hp, hn, if_neg hsize, if_pos hr, Server.appendToQueue, Server.logLater]

/-- So does an entry that is fetched from a peer that does not answer. -/
theorem download_puts_back {fi : FileInfo} (hro : c.readOnly = false) (hr : Server.outOfRetries c fi = false)
    (hdist : c.enableDistinctFile = true) (hoff : 0 ≤ fi.offSet) {s : Server} (hs : s.getFileInfoFromLevelDB fi.md5 = none) :
    ∃ k, (downloadProgram E c []).next (some fi) (.append { fi with retry := fi.retry + 1 } k) := by
  have h2 : fi.offSet ≠ -2 := by omega
  have hexist : s.checkFileExistByInfo c { fi with retry := fi.retry + 1 } = false := by
    simp only [Server.checkFileExistByInfo, if_pos hoff, hs]
  refine ⟨none, s, {}, Or.inr ⟨{ fi with retry := fi.retry + 1 }, ?_, rfl⟩⟩
  simp only [Server.downloadFromPeer, hro, hr, hexist, hdist, Bool.false_eq_true, if_false, and_false, h2, or_self,
    Bool.true_eq_false]
  simp [Server.downloadRequest, Server.downloadSmall, hoff, h2, Server.appendToDownloadQueue]

/-! ## Fixed inputs -/

def queueConfig : Config := { peers := ["http://b:8080".toList], retryCount := 3, enableDistinctFile := true }

def queueEntry : FileInfo :=
  { name := "a.txt".toList, reName := "150,0,6,.txt".toList, path := "files/haystack/p1".toList, md5 := "m".toList
    size := 6, offSet := 0 }

def fetchEntry : FileInfo := { queueEntry with peers := ["http://b:8080".toList] }

theorem queueEntry_is_put_back : (postProgram Env.plain queueConfig).next ((postProgram Env.plain queueConfig).start queueEntry)
    (.append { queueEntry with retry := 1 } ({ queueEntry with retry := 1 }, [])) := by
  refine post_puts_back Env.plain queueConfig
    (s := { disk := Disk.ofFiles [("files/haystack/p1/150".toList, "1hello".toList)] }) ?_ ?_ ?_ ?_
  · decide
  · decide
  · decide
  · decide +kernel

theorem fetchEntry_is_put_back : ∃ k, (downloadProgram Env.plain queueConfig []).next
    ((downloadProgram Env.plain queueConfig []).start fetchEntry) (.append { fetchEntry with retry := 1 } k) := by
  have hstart : (downloadProgram Env.plain queueConfig []).start fetchEntry = some fetchEntry := by decide
  rw [hstart]
  exact download_puts_back Env.plain queueConfig rfl rfl rfl (by decide) (s := { disk := { cwd := [], nodes := ∅ } }) rfl

/-- Two workers of each queue whose peer fails put their entries back at the same time. -/
theorem two_workers_put_back_at_once :
    (∃ s : Backpressure.State FileInfo (FileInfo × List Str) (Fin 2) Unit,
      (∀ i, (s.consumer i).Inside) ∧ ¬ Wedged CONST_QUEUE_SIZE s) ∧
    ∃ s : Backpressure.State FileInfo (Option FileInfo) (Fin 2) Unit,
      (∀ i, (s.consumer i).Inside) ∧ ¬ Wedged CONST_QUEUE_SIZE s := by
  constructor
  · obtain ⟨s, hrun, hall⟩ := Backpressure.all_append (n := 1) (show 10 ≤ CONST_QUEUE_SIZE by decide) () queueEntry_is_put_back
    exact ⟨s, hall, (sync_queues_never_wedge Env.plain queueConfig [] CONST_QUEUE_SIZE).1 s hrun⟩
  · obtain ⟨k, hk⟩ := fetchEntry_is_put_back
    obtain ⟨s, hrun, hall⟩ := Backpressure.all_append (n := 1) (show 10 ≤ CONST_QUEUE_SIZE by decide) () hk
    exact ⟨s, hall, (sync_queues_never_wedge Env.plain queueConfig [] CONST_QUEUE_SIZE).2 s hrun⟩

/-- Two hundred workers, ten thousand entries and one producer: with the peer down, both
    queues reach a state in which every worker waits for the others. -/
theorem failing_peers_wedge_the_queues :
    (∃ s : Backpressure.State FileInfo (FileInfo × List Str) (Fin 200) Unit,
      Relation.ReflTransGen (Step (postProgram Env.plain queueConfig) CONST_QUEUE_SIZE) Backpressure.init s ∧
        Wedged CONST_QUEUE_SIZE s) ∧
    ∃ s : Backpressure.State FileInfo (Option FileInfo) (Fin 200) Unit,
      Relation.ReflTransGen (Step (downloadProgram Env.plain queueConfig []) CONST_QUEUE_SIZE) Backpressure.init s ∧
        Wedged CONST_QUEUE_SIZE s := by
  constructor
  · exact Backpressure.wedge_reachable (by decide) () queueEntry_is_put_back
  · obtain ⟨k, hk⟩ := fetchEntry_is_put_back
    exact Backpressure.wedge_reachable (by decide) () hk

end GoFastdfs
