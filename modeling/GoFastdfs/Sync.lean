/-
  GoFastdfs.Sync — pushing records to peers (`postFileToPeer`, `SyncFileInfo`) and the
  forced repair between two nodes (`GetStat`, `GetMd5sForWeb`, `ReceiveMd5s`,
  `AutoRepair`).

  A peer is its address. What peers answer is given call by call; a request that gets no
  answer is a failure of the network. A repair compares the digests of one day, asks the
  peer for what is missing here and queues what is missing there; a consumer then takes
  each queued entry through the list of peers and passes over every peer that the
  entry's own `Peers` list names.

  Proved: a repair queues every record the peer's list lacks (`autoRepair_queues`), and
  for every pair of states the record then reaches the peer, or the peer says it has it,
  exactly when `Peers` does not name the peer (`forced_repair_iff`). A peer is put on
  the list when it takes the notice, so a download that fails later is never repaired
  (`a_notified_peer_is_never_repaired`).
-/

import GoFastdfs.Metadata
import Mathlib.Data.List.Dedup

namespace GoFastdfs

open Go (Str)

variable (E : Env) (c : Config)

/-! ## Pushing one record -/

/-- What a peer answers to `check_file_exist` (an empty record where the request fails)
    and to `syncfile_info` (nothing where it fails). -/
structure PeerAnswer where
  exist : FileInfo := {}
  sync : Option Str := none
  deriving DecidableEq, Repr

/-- What passes between the consumer of an entry and a peer. -/
inductive PeerEvent where
  /-- The peer's `check_file_exist` said that it has the entry's digest. -/
  | told (peer : Str) (entry : FileInfo)
  /-- The peer took a `syncfile_info` for the entry. -/
  | sent (peer : Str) (entry : FileInfo)
  deriving DecidableEq, Repr

/-- The name whose file must be there before a record is pushed. -/
def postFilename (fi : FileInfo) : Str :=
  if fi.reName = [] then fi.name else if fi.offSet ≠ -1 then Go.splitHead ',' fi.reName else fi.reName

def postPath (fi : FileInfo) : Str := c.dockerDir ++ fi.path ++ '/' :: postFilename fi

namespace Server

/-- `SaveFileMd5Log`, where the log queue has room. -/
def logLater (s : Server) (fi : FileInfo) (filename : Str) : Server :=
  { s with queueFileLog := s.queueFileLog ++ [⟨fi, filename⟩] }

def appendToQueue (s : Server) (fi : FileInfo) : Server := { s with queueToPeers := s.queueToPeers ++ [fi] }

def appendToDownloadQueue (s : Server) (fi : FileInfo) : Server :=
  { s with queueFromPeers := s.queueFromPeers ++ [fi] }

def notePeer (s : Server) (fi : FileInfo) (peer : Str) : Server × FileInfo :=
  let fi := { fi with peers := fi.peers ++ [peer] }
  (s.saveFileInfoToLevelDB E fi.md5 fi .ldb, fi)

/-- One turn of the loop of `postFileToPeer`; `entry` is the record as it was queued. -/
def postToPeer (entry : FileInfo) (s : Server) (fi : FileInfo) (peer : Str) (a : PeerAnswer) :
    Server × FileInfo × List PeerEvent :=
  if peer ∈ fi.peers then (s, fi, []) else
  match s.disk.stat (postPath c fi) with
  | none => (s, fi, [])
  | some n =>
    let fi := if fi.size = 0 then { fi with size := n.size } else fi
    if fi.offSet ≠ -2 ∧ c.enableDistinctFile = true ∧ a.exist.md5 ≠ [] then
      let r := s.notePeer E fi peer
      (r.1, r.2, [.told peer entry])
    else
      match a.sync with
      | none =>
        let r := if fi.retry ≤ c.retryCount then
            (s.appendToQueue { fi with retry := fi.retry + 1 }, { fi with retry := fi.retry + 1 }) else (s, fi)
        (r.1.logLater r.2 CONST_Md5_ERROR_FILE_NAME, r.2, [])
      | some result =>
        if Go.hasPrefix result "http://".toList then
          let r := s.notePeer E fi peer
          (r.1, r.2, [.sent peer entry])
        else (s.logLater fi CONST_Md5_ERROR_FILE_NAME, fi, [.sent peer entry])

/-- The loop of `postFileToPeer` over the peers left; the `i`-th peer gives the `i`-th
    answer. -/
def postLoop (entry : FileInfo) : Server → FileInfo → List (Str × PeerAnswer) → Server × FileInfo × List PeerEvent
  | s, fi, [] => (s, fi, [])
  | s, fi, (peer, a) :: rest =>
    let r := s.postToPeer E c entry fi peer a
    let r' := postLoop entry r.1 r.2.1 rest
    (r'.1, r'.2.1, r.2.2 ++ r'.2.2)

def postFileToPeer (s : Server) (fi : FileInfo) (answer : Nat → PeerAnswer) : Server × FileInfo × List PeerEvent :=
  postLoop E c fi s fi (c.peers.zipIdx.map fun x => (x.1, answer x.2))

/-- `ConsumerPostToPeer` over the entries of the queue, in their order. -/
def consumerPostToPeer : Server → List FileInfo → (Nat → Nat → PeerAnswer) → Server × List PeerEvent
  | s, [], _ => (s, [])
  | s, fi :: rest, answer =>
    let r := s.postFileToPeer E c fi (answer 0)
    let r' := consumerPostToPeer r.1 rest fun k => answer (k + 1)
    (r'.1, r.2.2 ++ r'.2)

/-- `SyncFileInfo` at a peer: the address it answers with. -/
def syncFileInfo (s : Server) (fi : FileInfo) (host : Str) : Server × Str :=
  let s := if fi.offSet = -2 then s.saveFileInfoToLevelDB E fi.md5 fi .ldb else s.logLater fi CONST_Md5_QUEUE_FILE_NAME
  let p := Go.replaceFirst (c.STORE_DIR ++ ['/']) [] fi.path
  (s.appendToDownloadQueue fi, "http://".toList ++ host ++ '/' :: (c.group ++ '/' :: (p ++ '/' :: fi.outname)))

/-! ## Repair -/

end Server

structure StatDateFileInfo where
  date : Str
  totalSize : Int
  fileCount : Int
  deriving DecidableEq, Repr

namespace Server

/-- The days between which `GetStat` looks. -/
def statRange (s : Server) : Int × Int :=
  s.statMap.keys.foldl (fun r k =>
    match k.splitOn '_' with
    | [day, _] =>
      match Go.parseInt day with
      | (i, true) => (min r.1 i, max r.2 i)
      | _ => r
    | _ => r) (20190101, 20190101)

def dateStat (s : Server) (day : Str) : Option StatDateFileInfo :=
  (s.statMap.get (totalSizeKey day)).map fun size => ⟨day, size, (s.statMap.get (countKey day)).getD 0⟩

def sum64 (ns : List Int) : Int := ns.foldl (fun total n => Int.bmod (total + n) (2 ^ 64)) 0

def getStat (s : Server) : List StatDateFileInfo :=
  let rows := ((List.range (s.statRange.2 - s.statRange.1 + 1).toNat).map (s.statRange.1 + Int.ofNat ·)).filterMap
    fun i => s.dateStat (Go.itoa i)
  rows ++ [⟨"all".toList, sum64 (rows.map (·.totalSize)), sum64 (rows.map (·.fileCount))⟩]

/-- `GetMd5sForWeb`: the digests of a day on one line; `iter` is the order in which a set
    is gone through. -/
def getMd5sForWeb (iter : List Str → List Str) (s : Server) (date : Str) : Str :=
  [','].intercalate ((iter (s.getMd5sByDate date CONST_FILE_Md5_FILE_NAME).dedup).filter (· ≠ []))

/-- What a peer answers to a repair: `stat`, and `get_md5s_by_date` for each day. -/
structure RepairAnswer where
  stat : Option (List StatDateFileInfo) := none
  md5s : Str → Option Str := fun _ => none

/-- What a repair sends besides queue entries. -/
inductive RepairRequest where
  | receiveMd5s (peer md5s : Str)
  | sync (peer date : Str)
  deriving DecidableEq, Repr

def repairDay (iter : List Str → List Str) (s : Server) (force : Bool) (peer : Str) (a : RepairAnswer)
    (row : StatDateFileInfo) : List FileInfo × List RepairRequest :=
  if row.date = "all".toList then ([], []) else
  match s.statMap.get (countKey row.date) with
  | none => ([], [.sync peer row.date])
  | some v =>
    if v ≠ row.fileCount ∨ force = true then
      match a.md5s row.date with
      | none => ([], [])
      | some md5s =>
        let localSet := (s.getMd5sByDate row.date CONST_FILE_Md5_FILE_NAME).dedup
        let remoteSet := (md5s.splitOn ',').dedup
        let missing := iter (remoteSet.filter (· ∉ localSet))
        ((iter (localSet.filter (· ∉ remoteSet))).filterMap s.getFileInfoFromLevelDB,
          [.receiveMd5s peer ([','].intercalate missing)])
    else ([], [])

def autoRepair (iter : List Str → List Str) (s : Server) (force : Bool) (answer : Nat → RepairAnswer) :
    List FileInfo × List RepairRequest :=
  let turns := c.peers.zipIdx.flatMap fun x =>
    ((answer x.2).stat.getD []).map fun row => repairDay iter s force x.1 (answer x.2) row
  (turns.flatMap (·.1), turns.flatMap (·.2))

def receiveMd5s (s : Server) (md5str : Str) : List FileInfo :=
  ((md5str.splitOn ',').filter (· ≠ [])).filterMap s.getFileInfoFromLevelDB

/-! ## One entry -/

end Server

namespace PeerEvent

def peer : PeerEvent → Str
  | told p _ => p
  | sent p _ => p

def entry : PeerEvent → FileInfo
  | told _ fi => fi
  | sent _ fi => fi

end PeerEvent

namespace Server

variable {E c}

/-- The record with the size of its file filled in where it is missing. -/
def sized (fi : FileInfo) (n : Node) : FileInfo := if fi.size = 0 then { fi with size := n.size } else fi

/-- Everything one turn can do: nothing, or, with the size filled in, note the peer on the
    record or queue an error. -/
inductive TurnOutcome (E : Env) (c : Config) (s : Server) (entry fi : FileInfo) (peer : Str) :
    Server × FileInfo × List PeerEvent → Prop
  | passed : TurnOutcome E c s entry fi peer (s, fi, [])
  | noted (n : Node) (e : List PeerEvent) : s.disk.stat (postPath c fi) = some n →
      (∀ x ∈ e, x.peer = peer ∧ x.entry = entry) →
      TurnOutcome E c s entry fi peer ((s.notePeer E (sized fi n) peer).1, (s.notePeer E (sized fi n) peer).2, e)
  | failed (n : Node) (retry : Int) (q : List FileInfo) (e : List PeerEvent) : s.disk.stat (postPath c fi) = some n →
      (∀ x ∈ e, x.peer = peer ∧ x.entry = entry) →
      TurnOutcome E c s entry fi peer
        ({ s with queueToPeers := q }.logLater { sized fi n with retry := retry } CONST_Md5_ERROR_FILE_NAME,
          { sized fi n with retry := retry }, e)

theorem postToPeer_outcome (s : Server) (entry fi : FileInfo) (peer : Str) (a : PeerAnswer) :
    TurnOutcome E c s entry fi peer (s.postToPeer E c entry fi peer a) := by
  unfold postToPeer
  split
  · exact .passed
  split
  · exact .passed
  · rename_i n hn
    have hsized : (if fi.size = 0 then { fi with size := n.size } else fi) = sized fi n := rfl
    rw [hsized]
    dsimp only
    split
    · exact .noted n _ hn (by simp [PeerEvent.peer, PeerEvent.entry])
    split
    · split
      · exact .failed n ((sized fi n).retry + 1) _ [] hn (by simp)
      · exact .failed n (sized fi n).retry s.queueToPeers [] hn (by simp)
    split
    · exact .noted n _ hn (by simp [PeerEvent.peer, PeerEvent.entry])
    · exact .failed n (sized fi n).retry s.queueToPeers _ hn (by simp [PeerEvent.peer, PeerEvent.entry])

theorem sized_peers (fi : FileInfo) (n : Node) : (sized fi n).peers = fi.peers := by
  unfold sized
  split <;> rfl

theorem sized_md5 (fi : FileInfo) (n : Node) : (sized fi n).md5 = fi.md5 := by
  unfold sized
  split <;> rfl

theorem postPath_sized (fi : FileInfo) (n : Node) : postPath c (sized fi n) = postPath c fi := by
  unfold sized
  split <;> rfl

/-- What one turn does to the entry: its file stays the same, and only this peer can come
    onto its list. -/
structure Turn (s : Server) (entry fi : FileInfo) (peer : Str) (r : Server × FileInfo × List PeerEvent) : Prop where
  disk : r.1.disk = s.disk
  path : postPath c r.2.1 = postPath c fi
  kept : ∀ p ∈ fi.peers, p ∈ r.2.1.peers
  added : ∀ p ∈ r.2.1.peers, p ∈ fi.peers ∨ p = peer
  events : ∀ e ∈ r.2.2, e.peer = peer ∧ e.entry = entry

theorem postToPeer_turn (s : Server) (entry fi : FileInfo) (peer : Str) (a : PeerAnswer) :
    Turn (c := c) s entry fi peer (s.postToPeer E c entry fi peer a) := by
  have hout := postToPeer_outcome (E := E) (c := c) s entry fi peer a
  generalize s.postToPeer E c entry fi peer a = r at hout ⊢
  cases hout with
  | passed => exact ⟨rfl, rfl, fun _ h => h, fun _ h => Or.inl h, fun _ h => by cases h⟩
  | noted n e _ he =>
    have hpeers : (s.notePeer E (sized fi n) peer).2.peers = fi.peers ++ [peer] := by
      rw [← sized_peers fi n]
      rfl
    exact ⟨rfl, postPath_sized fi n, fun p h => by simp [hpeers, h], fun p h => by simpa [hpeers] using h, he⟩
  | failed n retry q e _ he =>
    have hpeers := sized_peers fi n
    exact ⟨rfl, postPath_sized fi n, fun p h => by simpa [hpeers] using h, fun p h => Or.inl (by simpa [hpeers] using h), he⟩

/-- A peer that is not on the list, and answers, hears of an entry whose file is there. -/
theorem postToPeer_reaches {s : Server} {entry fi : FileInfo} {peer : Str} {a : PeerAnswer} (hp : peer ∉ fi.peers)
    (hf : s.disk.fileExists (postPath c fi) = true) (ha : a.sync ≠ none) : (s.postToPeer E c entry fi peer a).2.2 ≠ [] := by
  obtain ⟨n, hn⟩ := Option.isSome_iff_exists.mp hf
  obtain ⟨result, hres⟩ := Option.ne_none_iff_exists'.mp ha
  simp only [postToPeer, if_neg hp, hn, hres]
  generalize (if fi.size = 0 then { fi with size := n.size } else fi) = fi'
  split
  · simp
  · split <;> simp

/-- A peer on the list hears nothing, and none does of an entry whose file is missing. -/
theorem postToPeer_passes {s : Server} {entry fi : FileInfo} {peer : Str} {a : PeerAnswer}
    (h : peer ∈ fi.peers ∨ s.disk.fileExists (postPath c fi) = false) : (s.postToPeer E c entry fi peer a).2.2 = [] := by
  unfold postToPeer
  split
  · rfl
  · rename_i hp
    have hf := h.resolve_left hp
    rw [Disk.fileExists, Option.isSome_eq_false_iff, Option.isNone_iff_eq_none] at hf
    rw [hf]

theorem postLoop_disk {s : Server} {entry fi : FileInfo} {l : List (Str × PeerAnswer)} :
    (postLoop E c entry s fi l).1.disk = s.disk := by
  induction l generalizing s fi with
  | nil => rfl
  | cons x l ih => exact ih.trans (postToPeer_turn s entry fi x.1 x.2).disk

theorem postLoop_absent {s : Server} {entry fi : FileInfo} (h : s.disk.stat (postPath c fi) = none)
    (l : List (Str × PeerAnswer)) : (postLoop E c entry s fi l).1 = s := by
  induction l with
  | nil => rfl
  | cons x l ih =>
    have hturn : s.postToPeer E c entry fi x.1 x.2 = (s, fi, []) := by
      unfold postToPeer
      split
      · rfl
      · rw [h]
    simp only [postLoop, hturn]
    exact ih

theorem postLoop_entry {s : Server} {entry fi : FileInfo} {l : List (Str × PeerAnswer)} :
    ∀ e ∈ (postLoop E c entry s fi l).2.2, e.entry = entry := by
  induction l generalizing s fi with
  | nil => intro e he; cases he
  | cons x l ih =>
    intro e he
    rcases List.mem_append.mp he with he | he
    · exact ((postToPeer_turn s entry fi x.1 x.2).events e he).2
    · exact ih e he

theorem postLoop_reaches {entry : FileInfo} {peer : Str} {l : List (Str × PeerAnswer)} (hl : peer ∈ l.map (·.1))
    (ha : ∀ x ∈ l, x.1 = peer → x.2.sync ≠ none) {s : Server} {fi : FileInfo} (hp : peer ∉ fi.peers)
    (hf : s.disk.fileExists (postPath c fi) = true) : ∃ e ∈ (postLoop E c entry s fi l).2.2, e.peer = peer := by
  induction l generalizing s fi with
  | nil => cases hl
  | cons x l ih =>
    have ht := postToPeer_turn (E := E) (c := c) s entry fi x.1 x.2
    by_cases hx : x.1 = peer
    · obtain ⟨e, he⟩ := List.exists_mem_of_ne_nil (s.postToPeer E c entry fi x.1 x.2).2.2
        (postToPeer_reaches (hx ▸ hp) hf (ha x List.mem_cons_self hx))
      exact ⟨e, List.mem_append_left _ he, (ht.events e he).1.trans hx⟩
    · rw [List.map_cons, List.mem_cons] at hl
      have hp' : peer ∉ (s.postToPeer E c entry fi x.1 x.2).2.1.peers := fun h =>
        (ht.added peer h).elim hp fun h => hx h.symm
      obtain ⟨e, he, hep⟩ := ih (hl.resolve_left fun h => hx h.symm) (fun y hy => ha y (List.mem_cons_of_mem _ hy)) hp'
        (by rw [ht.disk, ht.path]; exact hf)
      exact ⟨e, List.mem_append_right _ he, hep⟩

theorem postLoop_passes {entry : FileInfo} {peer : Str} {l : List (Str × PeerAnswer)} {s : Server} {fi : FileInfo}
    (h : peer ∈ fi.peers ∨ s.disk.fileExists (postPath c fi) = false) :
    ∀ e ∈ (postLoop E c entry s fi l).2.2, e.peer ≠ peer := by
  induction l generalizing s fi with
  | nil => intro e he; cases he
  | cons x l ih =>
    have ht := postToPeer_turn (E := E) (c := c) s entry fi x.1 x.2
    intro e he
    rcases List.mem_append.mp he with he | he
    · intro hep
      have hx : x.1 = peer := (ht.events e he).1.symm.trans hep
      rw [postToPeer_passes (hx ▸ h)] at he
      cases he
    · refine ih ?_ e he
      rcases h with h | h
      · exact Or.inl (ht.kept peer h)
      · exact Or.inr (by rw [ht.disk, ht.path]; exact h)

/-! ## The queue -/

theorem mem_consumer {l : List FileInfo} {s : Server} {answer : Nat → Nat → PeerAnswer} {e : PeerEvent} :
    e ∈ (consumerPostToPeer E c s l answer).2 ↔
      ∃ k fi s', l[k]? = some fi ∧ s'.disk = s.disk ∧ s' = (consumerPostToPeer E c s (l.take k) answer).1 ∧
        e ∈ (s'.postFileToPeer E c fi (answer k)).2.2 := by
  induction l generalizing s answer with
  | nil => simp [consumerPostToPeer]
  | cons fi l ih =>
    simp only [consumerPostToPeer, List.mem_append, ih]
    constructor
    · intro hcase
      rcases hcase with h | ⟨k, fi', s', hk, hd, hs, he⟩
      · exact ⟨0, fi, s, rfl, rfl, rfl, h⟩
      · exact ⟨k + 1, fi', s', hk, hd.trans postLoop_disk, hs, he⟩
    · intro hx
      obtain ⟨k, fi', s', hk, hd, hs, he⟩ := hx
      cases k with
      | zero =>
        obtain rfl := Option.some.inj hk
        rw [hs] at he
        exact Or.inl he
      | succ k =>
        refine Or.inr ⟨k, fi', s', hk, ?_, hs, he⟩
        rw [hd]
        exact postLoop_disk.symm

theorem consumer_disk {l : List FileInfo} {s : Server} {answer : Nat → Nat → PeerAnswer} :
    (consumerPostToPeer E c s l answer).1.disk = s.disk := by
  induction l generalizing s answer with
  | nil => rfl
  | cons fi l ih => exact ih.trans postLoop_disk

/-! ## The repair -/

theorem mem_split_getMd5sForWeb {iter : List Str → List Str} (hiter : ∀ l, (iter l).Perm l) {s : Server} {d m : Str}
    (hcomma : ∀ x ∈ s.getMd5sByDate d CONST_FILE_Md5_FILE_NAME, ',' ∉ x) (hm : m ≠ []) :
    m ∈ (s.getMd5sForWeb iter d).splitOn ',' → m ∈ s.getMd5sByDate d CONST_FILE_Md5_FILE_NAME := by
  unfold getMd5sForWeb
  generalize hl : (iter (s.getMd5sByDate d CONST_FILE_Md5_FILE_NAME).dedup).filter (· ≠ []) = l
  have hmem : ∀ x ∈ l, x ∈ s.getMd5sByDate d CONST_FILE_Md5_FILE_NAME := by
    intro x hx
    rw [← hl, List.mem_filter] at hx
    exact List.mem_dedup.mp ((hiter _).mem_iff.mp hx.1)
  intro h
  by_cases hnil : l = []
  · subst hnil
    rw [List.intercalate, List.intersperse_nil, List.flatten_nil, List.splitOn_nil, List.mem_singleton] at h
    exact absurd h hm
  · rw [List.splitOn_intercalate _ (fun x hx => hcomma x (hmem x hx)) hnil] at h
    exact hmem m h

/-- Two nodes and one digest, as a forced repair finds them: this node has a record under
    the digest, logged on a day in both nodes' statistics, and the peer's log of the day
    lacks it. -/
structure Gap (c : Config) (s b : Server) (peer d m : Str) (v : FileInfo) : Prop where
  peer_mem : peer ∈ c.peers
  record : s.getFileInfoFromLevelDB m = some v
  digest : v.md5 = m
  nonempty : m ≠ []
  mine : m ∈ s.getMd5sByDate d CONST_FILE_Md5_FILE_NAME
  missing : m ∉ b.getMd5sByDate d CONST_FILE_Md5_FILE_NAME
  commas : ∀ x ∈ b.getMd5sByDate d CONST_FILE_Md5_FILE_NAME, ',' ∉ x
  day : d ≠ "all".toList
  day_mine : (s.statMap.get (countKey d)).isSome = true
  day_theirs : d ∈ b.getStat.map (·.date)

/-- The peer answers a repair out of its own state. -/
def AnswersFrom (c : Config) (iter : List Str → List Str) (b : Server) (peer : Str) (answer : Nat → RepairAnswer) : Prop :=
  ∀ i, c.peers[i]? = some peer → (answer i).stat = some b.getStat ∧ ∀ d, (answer i).md5s d = some (b.getMd5sForWeb iter d)

theorem autoRepair_queues {iter : List Str → List Str} (hiter : ∀ l, (iter l).Perm l) {s b : Server} {peer d m : Str}
    {v : FileInfo} (hgap : Gap c s b peer d m v) {answer : Nat → RepairAnswer} (ha : AnswersFrom c iter b peer answer) :
    v ∈ (autoRepair c iter s true answer).1 := by
  obtain ⟨i, hi⟩ := List.mem_iff_getElem?.mp hgap.peer_mem
  obtain ⟨hstat, hmd5s⟩ := ha i hi
  obtain ⟨row, hrow, hd⟩ := List.mem_map.mp hgap.day_theirs
  obtain ⟨n, hn⟩ := Option.isSome_iff_exists.mp hgap.day_mine
  unfold autoRepair
  refine List.mem_flatMap.mpr ⟨repairDay iter s true peer (answer i) row, List.mem_flatMap.mpr ⟨(peer, i), ?_, ?_⟩, ?_⟩
  · exact List.mem_zipIdx_iff_getElem?.mpr hi
  · rw [hstat]
    exact List.mem_map.mpr ⟨row, hrow, rfl⟩
  · have hday : row.date ≠ "all".toList := hd ▸ hgap.day
    have hn' : s.statMap.get (countKey row.date) = some n := hd ▸ hn
    simp only [repairDay, if_neg hday, hn', or_true, if_true, hmd5s]
    refine List.mem_filterMap.mpr ⟨m, (hiter _).mem_iff.mpr (List.mem_filter.mpr ⟨List.mem_dedup.mpr (hd ▸ hgap.mine), ?_⟩),
      hgap.record⟩
    rw [decide_eq_true_eq, List.mem_dedup]
    intro h
    exact hgap.missing (hd ▸ mem_split_getMd5sForWeb hiter (hd ▸ hgap.commas) hgap.nonempty h)

/-- A forced repair reaches a peer that answers, or learns that it has the digest, exactly
    when the record does not name the peer already and the file that is looked for before
    a push is there. -/
theorem forced_repair_iff {iter : List Str → List Str} (hiter : ∀ l, (iter l).Perm l) {s b : Server} {peer d m : Str}
    {v : FileInfo} (hgap : Gap c s b peer d m v) {answer : Nat → RepairAnswer} (ha : AnswersFrom c iter b peer answer)
    {post : Nat → Nat → PeerAnswer} (hpost : ∀ k i, c.peers[i]? = some peer → (post k i).sync ≠ none) :
    (∃ e ∈ (consumerPostToPeer E c s (autoRepair c iter s true answer).1 post).2, e.peer = peer ∧ e.entry = v) ↔
      peer ∉ v.peers ∧ s.disk.fileExists (postPath c v) = true := by
  constructor
  · intro hx
    obtain ⟨e, he, hep, hev⟩ := hx
    obtain ⟨k, fi, s', _, hd, _, he⟩ := mem_consumer.mp he
    have hfi : fi = v := (postLoop_entry e he).symm.trans hev
    subst hfi
    by_contra hno
    refine postLoop_passes ?_ e he hep
    by_cases hp : peer ∈ fi.peers
    · exact Or.inl hp
    · exact Or.inr (by rw [hd]; simpa [hp] using hno)
  · intro hx
    obtain ⟨hp, hf⟩ := hx
    obtain ⟨k, hk⟩ := List.mem_iff_getElem?.mp (autoRepair_queues hiter hgap ha)
    have hpeers : peer ∈ (c.peers.zipIdx.map fun x => (x.1, post k x.2)).map (·.1) := by
      rw [List.map_map]
      obtain ⟨i, hi⟩ := List.mem_iff_getElem?.mp hgap.peer_mem
      exact List.mem_map.mpr ⟨(peer, i), List.mem_zipIdx_iff_getElem?.mpr hi, rfl⟩
    have hsync : ∀ x ∈ c.peers.zipIdx.map (fun x => (x.1, post k x.2)), x.1 = peer → x.2.sync ≠ none := by
      intro x hx hxp
      obtain ⟨y, hy, rfl⟩ := List.mem_map.mp hx
      exact hpost k y.2 (hxp ▸ List.mem_zipIdx_iff_getElem?.mp hy)
    obtain ⟨e, he, hep⟩ : ∃ e ∈ ((consumerPostToPeer E c s ((autoRepair c iter s true answer).1.take k) post).1.postFileToPeer
        E c v (post k)).2.2, e.peer = peer :=
      postLoop_reaches hpeers hsync hp (by rw [consumer_disk]; exact hf)
    exact ⟨e, mem_consumer.mpr ⟨k, v, _, hk, consumer_disk, rfl, he⟩, hep, postLoop_entry e he⟩

/-! ## Two nodes -/

def peerB : Str := "http://b:8080".toList

def pairConfig : Config := { peers := [peerB], enableDistinctFile := true }

def nodeA (peers : List Str) : Server :=
  let v : FileInfo := { name := "a".toList, path := "files".toList, md5 := "m".toList, size := 1, peers := peers, offSet := -1 }
  { ldb := (∅ : Store Str Value).put "m".toList (.record v)
    logDB := (∅ : Store Str FileInfo).put "20190101_files.md5_m".toList v
    statMap := ((∅ : Store Str Int).put "20190101_fileCount".toList 1).put "20190101_totalSize".toList 1
    disk := Disk.ofFiles [("files/a".toList, "x".toList)] }

def nodeB : Server :=
  { statMap := ((∅ : Store Str Int).put "20190101_fileCount".toList 0).put "20190101_totalSize".toList 0
    disk := { cwd := [], nodes := ∅ } }

def fromB : Nat → RepairAnswer := fun _ => ⟨some nodeB.getStat, fun d => some (nodeB.getMd5sForWeb id d)⟩

def takenByB : Nat → Nat → PeerAnswer := fun _ _ => { sync := some "http://b:8080/x".toList }

theorem nodeA_gap (peers : List Str) (v : FileInfo) (hv : (nodeA peers).getFileInfoFromLevelDB "m".toList = some v)
    (hm : "m".toList ∈ (nodeA peers).getMd5sByDate "20190101".toList CONST_FILE_Md5_FILE_NAME) :
    Gap pairConfig (nodeA peers) nodeB peerB "20190101".toList "m".toList v where
  peer_mem := by decide
  record := hv
  digest := by
    obtain rfl : _ = v := Option.some.inj hv
    rfl
  nonempty := by decide
  mine := hm
  missing := by decide +kernel
  commas := by decide +kernel
  day := by decide
  day_mine := rfl
  day_theirs := by decide +kernel

theorem fromB_answers : AnswersFrom pairConfig id nodeB peerB fromB := fun _ _ => ⟨rfl, fun _ => rfl⟩

/-- A record that names nobody reaches the peer. -/
theorem forced_repair_reaches_b : ∃ e ∈ (consumerPostToPeer Env.plain pairConfig (nodeA [])
    (autoRepair pairConfig id (nodeA []) true fromB).1 takenByB).2, e.peer = peerB ∧
      e.entry = { name := "a".toList, path := "files".toList, md5 := "m".toList, size := 1, offSet := -1 } :=
  (forced_repair_iff (fun _ => List.Perm.refl _)
    (nodeA_gap [] { name := "a".toList, path := "files".toList, md5 := "m".toList, size := 1, offSet := -1 }
      rfl (by decide +kernel)) fromB_answers (fun _ _ _ => Option.some_ne_none _)).mpr (by decide +kernel)

/-- A record that already names the peer, which took the notice and never got the file:
    the repair queues it, and nothing is sent. -/
theorem a_notified_peer_is_never_repaired :
    "m".toList ∈ (nodeA [peerB]).getMd5sByDate "20190101".toList CONST_FILE_Md5_FILE_NAME ∧
    "m".toList ∉ nodeB.getMd5sByDate "20190101".toList CONST_FILE_Md5_FILE_NAME ∧
    ((nodeA [peerB]).disk.fileExists "files/a".toList = true) ∧
    (autoRepair pairConfig id (nodeA [peerB]) true fromB).1.length = 1 ∧
    (consumerPostToPeer Env.plain pairConfig (nodeA [peerB]) (autoRepair pairConfig id (nodeA [peerB]) true fromB).1
      takenByB).2 = [] := by
  decide +kernel

end Server

end GoFastdfs
