/-
  GoFastdfs.Retries — how often one entry is tried (`ConsumerDownLoad`, `DownloadFromPeer`,
  `ConsumerPostToPeer`, `postFileToPeer`).

  A consumer that fails puts a copy of its entry back on its own queue, with the count of
  tries in the copy. Between two turns everything else may change: the state of the node, the
  disk and what peers answer are new at each turn, and the copies come up in any order.

  Proved: an entry that comes fresh onto the queue of downloads is fetched at most
  `max 1 RetryCount` times, for `RetryCount` of either sign, and is gone then
  (`downloads_are_bounded`). Notices end as well (`announcement_ends`), but a pass over two
  failing peers puts two copies back, and either copy goes to both again: the bound of
  `RetryCount + 2` notices a peer stands exactly where one peer is to be told, or where no
  retry is allowed and no peer is configured twice (`announcements_are_bounded_iff`).
-/

import GoFastdfs.Announce
import GoFastdfs.Fetch
import GoFastdfs.Worklist
import Mathlib.Algebra.Order.Group.Nat

namespace GoFastdfs

open Go (Str)
open Worklist (State Step Yields)

variable (E : Env) (c : Config)

def Disk.bare : Disk := { cwd := [], nodes := ∅ }

/-! ## Downloads -/

/-- A turn of `ConsumerDownLoad` at an entry: the copies it puts back and how its fetch ended,
    if it made one. -/
def downloadTurn (host : Str) (fi : FileInfo) (copies : List FileInfo) (fetches : List FetchEnd) : Prop :=
  match downloadPeer host fi with
  | none => copies = [] ∧ fetches = []
  | some _ => ∃ (s : Server) (w : Download), let r := s.downloadFromPeer E c fi w
    r.1.queueFromPeers = s.queueFromPeers ++ copies ∧
      fetches = if r.2 = .ignored ∨ r.2 = .newer then [] else [r.2]

def fetchesLeft (fi : FileInfo) : Nat := (max 1 c.retryCount - fi.retry).toNat

section
variable {E c}

namespace Server

def Requeues (s : Server) (fi : FileInfo) (s' : Server) : Prop :=
  s'.queueFromPeers = s.queueFromPeers ∨ s'.queueFromPeers = s.queueFromPeers ++ [fi]

theorem Answered.requeues {s : Server} {fi : FileInfo} {r : Server × FetchEnd} (h : Answered E c s fi r) :
    s.Requeues fi r.1 := by
  cases h with
  | requeued => exact Or.inr rfl
  | present | failed | recorded | logged => exact Or.inl rfl

theorem downloadRequest_requeues (s : Server) (fi : FileInfo) (w : Download) :
    s.Requeues fi (s.downloadRequest E c fi w).1 := by
  obtain ⟨d, r, hr, hrequest⟩ := downloadRequest_answered (E := E) (c := c) s fi w
  rw [hrequest]
  exact hr.requeues

@[simp] theorem postFileToPeer_queueFromPeers (s : Server) (fi : FileInfo) (answer : Nat → PeerAnswer) :
    (s.postFileToPeer E c fi answer).1.queueFromPeers = s.queueFromPeers := by
  unfold postFileToPeer
  generalize c.peers.zipIdx.map (fun x => (x.1, answer x.2)) = l
  suffices h : ∀ entry fi', (postLoop E c entry s fi' l).1.queueFromPeers = s.queueFromPeers from h fi fi
  induction l generalizing s with
  | nil => exact fun _ _ => rfl
  | cons x l ih =>
    intro entry fi'
    have hturn := postToPeer_outcome (E := E) (c := c) s entry fi' x.1 x.2
    refine (ih _ entry _).trans ?_
    generalize s.postToPeer E c entry fi' x.1 x.2 = r at hturn ⊢
    cases hturn <;> rfl

theorem downloadFromPeer_exhausted {s : Server} {fi : FileInfo} (h : outOfRetries c fi = true) (w : Download) :
    s.downloadFromPeer E c fi w = (s, .ignored) := by
  unfold downloadFromPeer
  rw [if_pos h, ite_self]

theorem downloadFromPeer_requeues (s : Server) (fi : FileInfo) (w : Download) :
    s.Requeues { fi with retry := fi.retry + 1 } (s.downloadFromPeer E c fi w).1 := by
  unfold downloadFromPeer
  split
  · exact Or.inl rfl
  split
  · exact Or.inl rfl
  dsimp only
  split
  · exact Or.inl rfl
  split
  · split
    · exact downloadRequest_requeues ..
    · split
      · exact Or.inl (postFileToPeer_queueFromPeers ..)
      · exact downloadRequest_requeues ..
  · exact downloadRequest_requeues ..

theorem outOfRetries_iff (fi : FileInfo) : outOfRetries c fi = true ↔ fetchesLeft c fi = 0 := by
  unfold outOfRetries fetchesLeft
  split <;> simp only [decide_eq_true_eq, Int.toNat_eq_zero] <;> omega

end Server

/-- A turn costs the entry a fetch, whether it makes one or not: nothing happens any more when
    none is left, and a copy has one less. -/
theorem downloadTurn_pays {host : Str} {fi : FileInfo} {copies : List FileInfo} {fetches : List FetchEnd}
    (h : downloadTurn E c host fi copies fetches) :
    copies = [] ∧ fetches.length ≤ fetchesLeft c fi ∨
      ∃ fi', copies = [fi'] ∧ fetchesLeft c fi' + 1 = fetchesLeft c fi ∧ fetches.length ≤ 1 := by
  unfold downloadTurn at h
  cases hpeer : downloadPeer host fi with
  | none =>
    rw [hpeer] at h
    exact Or.inl ⟨h.1, by simp [h.2]⟩
  | some peer =>
    rw [hpeer] at h
    obtain ⟨s, w, hcopies, hfetches⟩ := h
    have hone : fetches.length ≤ 1 := by
      rw [hfetches]
      split <;> simp
    by_cases hout : Server.outOfRetries c fi = true
    · rw [Server.downloadFromPeer_exhausted hout w] at hcopies hfetches
      exact Or.inl ⟨by simpa using hcopies.symm, by simp [hfetches]⟩
    · have hleft := mt (Server.outOfRetries_iff fi).mpr hout
      rcases Server.downloadFromPeer_requeues s fi w with hq | hq
      · exact Or.inl ⟨by simpa using hcopies.symm.trans hq, by omega⟩
      · refine Or.inr ⟨_, List.append_cancel_left (hcopies.symm.trans hq), ?_, hone⟩
        unfold fetchesLeft at hleft ⊢
        dsimp only
        omega

theorem downloadTurn_total (host : Str) (fi : FileInfo) : ∃ copies fetches, downloadTurn E c host fi copies fetches := by
  unfold downloadTurn
  cases downloadPeer host fi with
  | none => exact ⟨[], [], rfl, rfl⟩
  | some peer =>
    have s : Server := { disk := .bare }
    rcases Server.downloadFromPeer_requeues (E := E) (c := c) s fi {} with hq | hq
    · exact ⟨[], _, s, {}, hq.trans (List.append_nil _).symm, rfl⟩
    · exact ⟨_, _, s, {}, hq, rfl⟩

/-- For every `RetryCount`, and whatever the fetches bring: an entry that was not tried yet is
    fetched at most `max 1 RetryCount` times, it takes one turn more than that at most, for
    itself and its copies, and as long as one of them waits there is a next turn. -/
theorem downloads_are_bounded (host : Str) {fi : FileInfo} (hretry : fi.retry = 0) {n : Nat} {t : State FileInfo FetchEnd}
    (hrun : Worklist.Run (downloadTurn E c host) n (.one fi) t) :
    (t.done.length : Int) ≤ max 1 c.retryCount ∧ (n + t.pending.length : Int) ≤ max 1 c.retryCount + 1 ∧
      (t.pending ≠ [] → ∃ u, Step (downloadTurn E c host) t u) := by
  have hstart : (fetchesLeft c fi : Int) = max 1 c.retryCount := by
    unfold fetchesLeft
    omega
  have hany : ∀ (a : FileInfo) copies out, True → downloadTurn E c host a copies out → ∀ b ∈ copies, True :=
    fun _ _ _ _ _ _ _ => trivial
  refine ⟨?_, ?_, ?_⟩
  · have hbudget := hrun.budget hany (fetchesLeft c) (fun _ => true) ?_ fun _ _ => trivial
    · rw [List.countP_true] at hbudget
      simp only [State.one, List.map_cons, List.map_nil, List.sum_cons, List.sum_nil, List.length_nil] at hbudget
      omega
    · intro a copies out _ hturn
      rw [List.countP_true]
      rcases downloadTurn_pays hturn with ⟨rfl, hout⟩ | ⟨a', rfl, hleft, hout⟩
      · simpa using hout
      · simp only [List.map_cons, List.map_nil, List.sum_cons, List.sum_nil]
        omega
  · have hsize := hrun.size_le hany (fetchesLeft c · + 1) ?_ fun _ _ => trivial
    · have hlen := List.length_le_sum_of_one_le (t.pending.map (fetchesLeft c · + 1)) (by simp)
      rw [List.length_map] at hlen
      simp only [State.one, List.map_cons, List.map_nil, List.sum_cons, List.sum_nil] at hsize
      omega
    · intro a copies out _ hturn
      rcases downloadTurn_pays hturn with ⟨rfl, -⟩ | ⟨a', rfl, hleft, -⟩
      · simp
      · simp only [List.map_cons, List.map_nil, List.sum_cons, List.sum_nil]
        omega
  · intro hne
    obtain ⟨pending, done⟩ := t
    cases pending with
    | nil => exact absurd rfl hne
    | cons a back =>
      obtain ⟨copies, out, hturn⟩ := downloadTurn_total (E := E) (c := c) host a
      exact ⟨_, .take [] back a done copies out hturn⟩

end

def twoTries : Config := { peers := ["http://b:8080".toList], retryCount := 2, enableDistinctFile := true }

def unreached (retry : Int) : FileInfo :=
  { name := "a.txt".toList, path := "files/d".toList, md5 := "m".toList, peers := ["http://b:8080".toList], size := 5
    offSet := -1, retry := retry }

theorem unreached_turn : ∀ retry ∈ ([0, 1] : List Int),
    downloadTurn Env.plain twoTries [] (unreached retry) [unreached (retry + 1)] [.requeued] := by
  have hturn : ∀ retry ∈ ([0, 1] : List Int),
      let r := ({ disk := .bare } : Server).downloadFromPeer Env.plain twoTries (unreached retry) {}
      r.1.queueFromPeers = [unreached (retry + 1)] ∧ r.2 = .requeued := by decide +kernel
  intro retry hmem
  obtain ⟨hq, hend⟩ := hturn retry hmem
  exact ⟨{ disk := .bare }, {}, hq, by rw [hend]; rfl⟩

/-- Three turns, two of them with a fetch. -/
theorem an_unreached_file_is_fetched_twice : ∃ t,
    Worklist.Run (downloadTurn Env.plain twoTries []) 3 (.one (unreached 0)) t ∧ t = ⟨[], [.requeued, .requeued]⟩ ∧
      (t.done.length : Int) ≤ 2 := by
  have hlast : downloadTurn Env.plain twoTries [] (unreached 2) [] [] := ⟨{ disk := .bare }, {}, rfl, rfl⟩
  have hrun : Worklist.Run (downloadTurn Env.plain twoTries []) 3 (.one (unreached 0)) ⟨[], [.requeued, .requeued]⟩ :=
    (((Worklist.Run.nil _).snoc (.take [] [] _ [] _ _ (unreached_turn 0 (by simp)))).snoc
      (.take [] [] _ _ _ _ (unreached_turn 1 (by simp)))).snoc (.take [] [] _ _ _ _ hlast)
  exact ⟨_, hrun, rfl, (downloads_are_bounded [] rfl hrun).1⟩

/-! ## Notices -/

/-- A turn of `ConsumerPostToPeer` at an entry: the copies it puts back and the peers that are
    sent a `syncfile_info`. -/
def announceTurn (fi : FileInfo) (copies : List FileInfo) (posts : List Str) : Prop :=
  ∃ (s : Server) (turn : Nat → PeerAnswer × Disk), let r := s.postVisits E c fi (c.visits turn)
    r.1.queueToPeers = s.queueToPeers ++ copies ∧ posts = r.2.2

def triesLeft (fi : FileInfo) : Nat := (c.retryCount + 1 - fi.retry).toNat

def unlisted (fi : FileInfo) : List Str := c.peers.filter (!fi.peers.contains ·)

/-- The work on an entry and its copies comes to an end, and no peer is sent more than
    `RetryCount + 2` notices of it. -/
def RetriesBounded (fi : FileInfo) : Prop :=
  (∃ N, ∀ n t, Worklist.Run (announceTurn E c) n (.one fi) t → n ≤ N) ∧
    ∀ n t peer, Worklist.Run (announceTurn E c) n (.one fi) t → (t.done.countP (· == peer) : Int) ≤ c.retryCount + 2

/-- What one pass over the peers leaves on the queue; `final` is the record at its end. -/
structure Spawned (fi : FileInfo) (peers : List Str) (copies : List FileInfo) (final : FileInfo)
    (posts : List Str) : Prop where
  weight : (copies.map (2 ^ triesLeft c ·)).sum + 2 ^ triesLeft c final ≤ 2 ^ triesLeft c fi
  count : copies.length + triesLeft c final ≤ triesLeft c fi
  few : copies.length ≤ (peers.filter (!fi.peers.contains ·)).length
  posts : posts.Sublist (peers.filter (!fi.peers.contains ·))
  listed : ∀ x ∈ copies, fi.peers ⊆ x.peers

section
variable {E c}

theorem peers_visits (turn : Nat → PeerAnswer × Disk) : (c.visits turn).map (·.peer) = c.peers := by
  unfold Config.visits
  rw [List.map_map]
  exact List.zipIdx_map_fst 0 c.peers

theorem triesLeft_retried (fi : FileInfo) (a : PeerAnswer) :
    (Server.requeued c fi a = [] ∧ Server.retried c fi a = fi ∧ (a.sync = none → triesLeft c fi = 0)) ∨
      Server.requeued c fi a = [Server.retried c fi a] ∧ triesLeft c (Server.retried c fi a) + 1 = triesLeft c fi := by
  unfold Server.requeued Server.retried
  by_cases h : a.sync = none ∧ fi.retry ≤ c.retryCount
  · rw [if_pos h, if_pos h]
    refine Or.inr ⟨rfl, ?_⟩
    unfold triesLeft
    dsimp only
    omega
  · rw [if_neg h, if_neg h]
    refine Or.inl ⟨rfl, rfl, fun hnone => ?_⟩
    have hused : ¬fi.retry ≤ c.retryCount := fun hle => h ⟨hnone, hle⟩
    unfold triesLeft
    omega

theorem filter_unlisted_sublist {fi fi' : FileInfo} (h : fi.peers ⊆ fi'.peers) (peers : List Str) :
    (peers.filter (!fi'.peers.contains ·)).Sublist (peers.filter (!fi.peers.contains ·)) :=
  List.monotone_filter_right peers fun p hp => by
    simp only [Bool.not_eq_true', List.contains_eq_mem, decide_eq_false_iff_not] at hp ⊢
    exact fun hm => hp (h hm)

namespace Spawned

theorem cons {fi fi' final : FileInfo} {peer : Str} {peers : List Str} {copies : List FileInfo} {posts sent : List Str}
    (h : Spawned c fi' peers copies final posts) (hleft : triesLeft c fi' = triesLeft c fi) (hpeers : fi.peers ⊆ fi'.peers)
    (hsent : sent.Sublist ([peer].filter (!fi.peers.contains ·))) :
    Spawned c fi (peer :: peers) copies final (sent ++ posts) where
  weight := hleft ▸ h.weight
  count := hleft ▸ h.count
  few := by
    have hsub := (filter_unlisted_sublist hpeers peers).trans
      ((List.sublist_cons_self peer peers).filter (!fi.peers.contains ·))
    exact h.few.trans hsub.length_le
  posts := by
    rw [← List.singleton_append, List.filter_append]
    exact hsent.append (h.posts.trans (filter_unlisted_sublist hpeers peers))
  listed x hx := List.Subset.trans hpeers (h.listed x hx)

theorem cons_copy {fi fi' final : FileInfo} {peer : Str} {peers : List Str} {copies : List FileInfo} {posts sent : List Str}
    (h : Spawned c fi' peers copies final posts) (hleft : triesLeft c fi' + 1 = triesLeft c fi)
    (hpeers : fi'.peers = fi.peers) (hp : peer ∉ fi.peers) (hsent : sent.Sublist ([peer].filter (!fi.peers.contains ·))) :
    Spawned c fi (peer :: peers) (fi' :: copies) final (sent ++ posts) where
  weight := by
    have hw := h.weight
    rw [← hleft, pow_succ]
    simp only [List.map_cons, List.sum_cons]
    omega
  count := by
    have hc := h.count
    rw [List.length_cons]
    omega
  few := by
    have hf := h.few
    rw [hpeers] at hf
    rw [List.filter_cons_of_pos (by simpa using hp), List.length_cons, List.length_cons]
    omega
  posts := by
    have hpost := h.posts
    rw [hpeers] at hpost
    rw [← List.singleton_append, List.filter_append]
    exact hsent.append hpost
  listed x hx := by
    rcases List.mem_cons.mp hx with rfl | hx
    · exact fun _ hm => hpeers.symm ▸ hm
    · exact hpeers ▸ h.listed x hx

end Spawned

theorem sized_retry (fi : FileInfo) (n : Node) : (Server.sized fi n).retry = fi.retry := by
  unfold Server.sized
  split <;> rfl

theorem sent_sublist (fi : FileInfo) (v : Visit) :
    (if v.posts c fi then [v.peer] else []).Sublist ([v.peer].filter (!fi.peers.contains ·)) := by
  by_cases h : v.posts c fi = true
  · have hp : v.peer ∉ fi.peers := by
      simp only [Visit.posts, Bool.and_eq_true, Bool.not_eq_true', List.contains_eq_mem, decide_eq_false_iff_not] at h
      exact h.1.1
    rw [if_pos h, List.filter_cons_of_pos (by simpa using hp)]
    exact List.Sublist.refl _
  · rw [if_neg h]
    exact List.nil_sublist _

theorem postVisits_spawned (s : Server) (fi : FileInfo) (vs : List Visit) :
    ∃ copies, (s.postVisits E c fi vs).1.queueToPeers = s.queueToPeers ++ copies ∧
      Spawned c fi (vs.map (·.peer)) copies (s.postVisits E c fi vs).2.1 (s.postVisits E c fi vs).2.2 := by
  induction vs generalizing s fi with
  | nil =>
    refine ⟨[], (List.append_nil _).symm, ?_⟩
    constructor <;> simp [Server.postVisits]
  | cons v vs ih =>
    have hturn := Server.postToPeer_visit (E := E) (c := c) s fi v
    have hsent := sent_sublist (c := c) fi v
    simp only [Server.postVisits]
    generalize (s.visit v).postToPeer E c fi fi v.peer v.answer = t at hturn ⊢
    cases hturn with
    | passed e hv =>
      obtain ⟨copies, hq, hspawned⟩ := ih (s.visit v) fi
      exact ⟨copies, hq, hspawned.cons rfl (List.Subset.refl _) hsent⟩
    | noted n e hp hv =>
      obtain ⟨copies, hq, hspawned⟩ := ih _ ((s.visit v).notePeer E (Server.sized fi n) v.peer).2
      refine ⟨copies, hq, hspawned.cons ?_ ?_ hsent⟩
      · rw [triesLeft, triesLeft, ← sized_retry fi n]
        rfl
      · rw [← Server.sized_peers fi n]
        exact List.subset_append_left _ _
    | failed n e hp hf hv =>
      set fi' := Server.retried c (Server.sized fi n) v.answer with hfi'
      set s' : Server := Server.logLater
        { s.visit v with queueToPeers := s.queueToPeers ++ Server.requeued c (Server.sized fi n) v.answer } fi'
        CONST_Md5_ERROR_FILE_NAME
      obtain ⟨copies, hq, hspawned⟩ := ih s' fi'
      have hpeers : fi'.peers = fi.peers := by
        rw [← Server.sized_peers fi n, hfi']
        unfold Server.retried
        split <;> rfl
      have hsized : triesLeft c (Server.sized fi n) = triesLeft c fi := by rw [triesLeft, triesLeft, sized_retry]
      rcases triesLeft_retried (c := c) (Server.sized fi n) v.answer with ⟨hnone, hsame, -⟩ | ⟨hone, hless⟩
      · refine ⟨copies, ?_, hspawned.cons ?_ (fun _ hm => hpeers.symm ▸ hm) hsent⟩
        · simpa [s', Server.logLater, hnone] using hq
        · rw [hfi', hsame, hsized]
      · refine ⟨fi' :: copies, ?_, hspawned.cons_copy ?_ hpeers hp hsent⟩
        · simpa [s', Server.logLater, hone, List.append_assoc] using hq
        · rw [← hsized]
          exact hless

theorem announceTurn_spawned {fi : FileInfo} {copies : List FileInfo} {posts : List Str}
    (h : announceTurn E c fi copies posts) : ∃ final, Spawned c fi c.peers copies final posts := by
  obtain ⟨s, turn, hq, rfl⟩ := h
  obtain ⟨copies', hq', hspawned⟩ := postVisits_spawned (E := E) (c := c) s fi (c.visits turn)
  obtain rfl := List.append_cancel_left (hq.symm.trans hq')
  rw [peers_visits] at hspawned
  exact ⟨_, hspawned⟩

theorem Spawned.triesLeft_lt {fi final : FileInfo} {peers posts : List Str} {copies : List FileInfo}
    (h : Spawned c fi peers copies final posts) {x : FileInfo} (hx : x ∈ copies) : triesLeft c x < triesLeft c fi := by
  have hle : 2 ^ triesLeft c x ≤ (copies.map (2 ^ triesLeft c ·)).sum :=
    List.le_sum_of_mem (List.mem_map_of_mem hx)
  have hw := h.weight
  have hpos : 0 < 2 ^ triesLeft c final := Nat.two_pow_pos _
  exact (Nat.pow_lt_pow_iff_right (by decide : 1 < 2)).mp (by omega)

/-! ### Bounds -/

/-- Every turn pays for itself and its copies, so the work on an entry ends. -/
theorem announcement_ends (fi : FileInfo) {n : Nat} {t : State FileInfo Str}
    (h : Worklist.Run (announceTurn E c) n (.one fi) t) :
    n ≤ 2 ^ triesLeft c fi := by
  have hsize := h.size_le (P := fun _ => True) (fun _ _ _ _ _ _ _ => trivial) (2 ^ triesLeft c ·) ?_ fun _ _ => trivial
  · simp only [State.one, List.map_cons, List.map_nil, List.sum_cons, List.sum_nil] at hsize
    omega
  · intro a copies out _ hturn
    obtain ⟨final, hspawned⟩ := announceTurn_spawned hturn
    have hpos : 0 < 2 ^ triesLeft c final := Nat.two_pow_pos _
    have hw := hspawned.weight
    omega

/-- An entry whose pass puts back one copy at most and posts to each peer at most once. -/
structure Single (c : Config) (fi : FileInfo) : Prop where
  nodup : (unlisted c fi).Nodup
  few : (unlisted c fi).length ≤ 1 ∨ triesLeft c fi ≤ 1

theorem Single.copies {fi : FileInfo} (h : Single c fi) {copies : List FileInfo} {posts : List Str}
    (hturn : announceTurn E c fi copies posts) : ∀ x ∈ copies, Single c x := by
  obtain ⟨final, hspawned⟩ := announceTurn_spawned hturn
  intro x hx
  have hsub := filter_unlisted_sublist (hspawned.listed x hx) c.peers
  refine ⟨h.nodup.sublist hsub, h.few.imp (fun hle => ?_) fun hle => ?_⟩
  · exact hsub.length_le.trans hle
  · exact (hspawned.triesLeft_lt hx).le.trans hle

theorem Single.pays {fi : FileInfo} (h : Single c fi) {copies : List FileInfo} {posts : List Str}
    (hturn : announceTurn E c fi copies posts) (peer : Str) :
    (copies.map (triesLeft c · + 1)).sum + posts.countP (· == peer) ≤ triesLeft c fi + 1 := by
  obtain ⟨final, hspawned⟩ := announceTurn_spawned hturn
  have hposts : posts.countP (· == peer) ≤ 1 :=
    hspawned.posts.countP_le.trans (List.nodup_iff_count_le_one.mp h.nodup peer)
  have hone : copies.length ≤ 1 := by
    rcases h.few with hfew | hfew
    · exact hspawned.few.trans hfew
    · have hcount := hspawned.count
      omega
  match copies, hone with
  | [], _ =>
    simp only [List.map_nil, List.sum_nil]
    omega
  | [x], _ =>
    have hlt := hspawned.triesLeft_lt (List.mem_singleton_self x)
    simp only [List.map_cons, List.map_nil, List.sum_cons, List.sum_nil]
    omega

theorem Single.posts_le {fi : FileInfo} (h : Single c fi) {n : Nat} {t : State FileInfo Str}
    (hrun : Worklist.Run (announceTurn E c) n (.one fi) t) (peer : Str) :
    t.done.countP (· == peer) ≤ triesLeft c fi + 1 := by
  have hbudget := hrun.budget (P := Single c) (fun _ _ _ ha hturn => ha.copies hturn) (triesLeft c · + 1) (· == peer)
    (fun _ _ _ ha hturn => ha.pays hturn peer) (by simpa [State.one] using h)
  simp only [State.one, List.map_cons, List.map_nil, List.sum_cons, List.sum_nil, List.countP_nil] at hbudget
  omega

/-! ### A disk that has the file -/

structure Disk.Bare (d : Disk) : Prop where
  dir : ∀ l n, d.node l = some n → n = .dir
  parent : ∀ l, d.isDir l = true → d.isDir l.dropLast = true

theorem Disk.Bare.put {d : Disk} (h : d.Bare) {l : Loc} (hl : d.isDir l = true) (x : Str) :
    (d.put (l ++ [x]) .dir).Bare := by
  have hnode : ∀ k, (d.put (l ++ [x]) .dir).node k = if k = l ++ [x] then some .dir else d.node k :=
    Disk.node_put (by simp) .dir
  have hkeep : ∀ k, d.isDir k = true → (d.put (l ++ [x]) .dir).isDir k = true := fun k hk => by
    simp only [Disk.isDir, beq_iff_eq] at hk ⊢
    rw [hnode, hk, ite_self]
  refine ⟨fun k n hn => ?_, fun k hk => ?_⟩
  · rw [hnode] at hn
    split at hn
    · exact (Option.some.inj hn).symm
    · exact h.dir k n hn
  · by_cases hx : k = l ++ [x]
    · rw [hx, List.dropLast_concat]
      exact hkeep l hl
    · refine hkeep _ (h.parent k ?_)
      simpa [Disk.isDir, hnode, hx] using hk

theorem Disk.mkdirs_leads (cs : List Str) (d : Disk) (cur : Loc) (h : d.Bare) (hcur : d.isDir cur = true) :
    ∃ l, (d.mkdirs cur cs).walk cur cs = some l ∧ (d.mkdirs cur cs).isDir l = true := by
  induction cs generalizing d cur with
  | nil => exact ⟨cur, rfl, hcur⟩
  | cons x cs ih =>
    rw [Disk.walk_cons, if_pos ((Disk.mkdirs_grow (x :: cs) d cur).isDir cur hcur)]
    unfold Disk.mkdirs Disk.follow
    by_cases hdot : x = [] ∨ x = ['.']
    · rw [if_pos hdot, if_pos hdot]
      exact ih d cur h hcur
    rw [if_neg hdot, if_neg hdot]
    by_cases hup : x = ['.', '.']
    · rw [if_pos hup, if_pos hup]
      exact ih d _ h (h.parent cur hcur)
    rw [if_neg hup, if_neg hup]
    cases hn : d.node (cur ++ [x]) with
    | none => exact ih _ _ (h.put hcur x) (by simp [Disk.isDir, Disk.node_put])
    | some n =>
      obtain rfl := h.dir _ n hn
      exact ih d _ h (by simp [Disk.isDir, hn])

theorem Disk.bare_bare : Disk.Bare .bare := by
  refine ⟨fun l n hn => ?_, fun l hl => ?_⟩
  · unfold Disk.node Disk.bare at hn
    split at hn
    · exact (Option.some.inj hn).symm
    · simp at hn
  · unfold Disk.isDir Disk.node Disk.bare at hl
    split at hl
    · rename_i hnil
      simp [hnil, Disk.isDir]
    · simp at hl

/-- Every path but the empty one leads somewhere on some disk. -/
theorem Disk.exists_fileExists {p : Str} (hp : p ≠ []) : ∃ d : Disk, d.fileExists p = true := by
  have hstart : ∀ d : Disk, d.cwd = [] → d.startOf p = [] := fun d hd => by
    unfold Disk.startOf
    rw [hd, ite_self]
  obtain ⟨l, hwalk, hdir⟩ := Disk.mkdirs_leads (p.splitOn '/') .bare [] Disk.bare_bare rfl
  have hmade : Disk.bare.mkdirAll p = Disk.bare.mkdirs [] (p.splitOn '/') := by rw [Disk.mkdirAll, hstart _ rfl]
  refine ⟨Disk.bare.mkdirAll p, Disk.fileExists_iff.mpr ⟨l, .dir, ?_, ?_⟩⟩
  · rw [Disk.locate, if_neg hp, hstart _ (Disk.mkdirAll_grow _ p).cwd, hmade]
    exact hwalk
  · rw [hmade]
    simpa [Disk.isDir] using hdir

/-! ### Peers that all fail -/

/-- The tries left of the copies that `n` failing peers make of an entry with `k` left. -/
def spawn : Nat → Nat → List Nat
  | _, 0 => []
  | 0, _ => []
  | k + 1, n + 1 => k :: spawn k n

theorem spawn_zero (n : Nat) : spawn 0 n = [] := by
  cases n <;> rfl

def failing (d : Disk) : Nat → PeerAnswer × Disk := fun _ => ({}, d)

theorem postVisits_failing {d : Disk} (vs : List Visit) (hvs : ∀ v ∈ vs, v.answer = {} ∧ v.disk = d) (s : Server)
    {fi : FileInfo} (hf : d.fileExists (postPath c fi) = true) :
    ∃ copies, (s.postVisits E c fi vs).1.queueToPeers = s.queueToPeers ++ copies ∧
      copies.map (triesLeft c) = spawn (triesLeft c fi) ((vs.map (·.peer)).filter (!fi.peers.contains ·)).length ∧
      (∀ x ∈ copies, x.peers = fi.peers ∧ postPath c x = postPath c fi) ∧
      (s.postVisits E c fi vs).2.2 = (vs.map (·.peer)).filter (!fi.peers.contains ·) := by
  induction vs generalizing s fi with
  | nil => exact ⟨[], (List.append_nil _).symm, by simp [spawn], by simp, rfl⟩
  | cons v vs ih =>
    obtain ⟨hanswer, hdisk⟩ := hvs v List.mem_cons_self
    have hrest : ∀ w ∈ vs, w.answer = {} ∧ w.disk = d := fun w hw => hvs w (List.mem_cons_of_mem _ hw)
    have hfinds : v.finds c fi = true := by rw [Visit.finds, hdisk, hf]
    have htold : v.told c fi = false := by simp [Visit.told, hanswer]
    have hturn := Server.postToPeer_visit (E := E) (c := c) s fi v
    simp only [Server.postVisits]
    generalize (s.visit v).postToPeer E c fi fi v.peer v.answer = t at hturn ⊢
    cases hturn with
    | passed e hv =>
      have hp : v.peer ∈ fi.peers := hv.resolve_right (by simp [hfinds])
      obtain ⟨copies, hq, hleft, hsame, hposts⟩ := ih hrest (s.visit v) hf
      have hposts' : v.posts c fi = false := by simp [Visit.posts, hp]
      rw [List.map_cons, List.filter_cons_of_neg (by simpa using hp)]
      exact ⟨copies, hq, hleft, hsame, by simpa [hposts'] using hposts⟩
    | noted n e hp hv =>
      simp [Visit.confirms, htold, Visit.takes, hanswer] at hv
    | failed n e hp _ _ =>
      set fi' := Server.retried c (Server.sized fi n) v.answer with hfi'
      have hvar : Server.Variant fi fi' := (Server.Variant.sized fi n).trans (Server.Variant.retried ..)
      have hpath : postPath c fi' = postPath c fi := by
        obtain ⟨p, m, k, h⟩ := hvar
        rw [h]
        rfl
      have hpeers : fi'.peers = fi.peers := by
        rw [← Server.sized_peers fi n, hfi']
        unfold Server.retried
        split <;> rfl
      set s' : Server := Server.logLater
        { s.visit v with queueToPeers := s.queueToPeers ++ Server.requeued c (Server.sized fi n) v.answer } fi'
        CONST_Md5_ERROR_FILE_NAME
      obtain ⟨copies, hq, hleft, hsame, hposts⟩ := ih hrest s' (hpath ▸ hf)
      have hsized : triesLeft c (Server.sized fi n) = triesLeft c fi := by rw [triesLeft, triesLeft, sized_retry]
      have hsent : v.posts c fi = true := by simp [Visit.posts, hp, hfinds, htold]
      rw [hpeers] at hleft hposts
      rw [List.map_cons, List.filter_cons_of_pos (by simpa using hp), if_pos hsent, List.length_cons, hposts]
      rw [hpeers, hpath] at hsame
      rcases triesLeft_retried (c := c) (Server.sized fi n) v.answer with ⟨hnone, hfixed, hused⟩ | ⟨hone, hless⟩
      · have hzero : triesLeft c fi = 0 := hsized ▸ hused (by rw [hanswer])
        rw [← hfi'] at hfixed
        refine ⟨copies, ?_, ?_, hsame, rfl⟩
        · simpa [s', Server.logLater, hnone] using hq
        · rw [hleft, hfixed, hsized, hzero, spawn_zero, spawn_zero]
      · rw [← hfi'] at hone hless
        refine ⟨fi' :: copies, ?_, ?_, ?_, rfl⟩
        · simpa [s', Server.logLater, hone, List.append_assoc] using hq
        · rw [← hsized, ← hless, List.map_cons, hleft]
          rfl
        · intro x hx
          rcases List.mem_cons.mp hx with rfl | hx
          · exact ⟨hpeers, hpath⟩
          · exact hsame x hx

theorem announceTurn_failing {d : Disk} {fi : FileInfo} (hf : d.fileExists (postPath c fi) = true) :
    ∃ copies, announceTurn E c fi copies (unlisted c fi) ∧
      copies.map (triesLeft c) = spawn (triesLeft c fi) (unlisted c fi).length ∧
      ∀ x ∈ copies, x.peers = fi.peers ∧ postPath c x = postPath c fi := by
  have hvs : ∀ v ∈ c.visits (failing d), v.answer = {} ∧ v.disk = d := by
    intro v hv
    obtain ⟨x, -, rfl⟩ := List.mem_map.mp hv
    exact ⟨rfl, rfl⟩
  obtain ⟨copies, hq, hleft, hsame, hposts⟩ := postVisits_failing (E := E) (c := c) _ hvs { disk := d } hf
  rw [peers_visits] at hleft hposts
  exact ⟨copies, ⟨{ disk := d }, failing d, hq, hposts.symm⟩, hleft, hsame⟩

/-- What the copies yield adds up, by their tries left. -/
theorem yields_of_copies {fi : FileInfo} {copies : List FileInfo} {posts : List Str} {peer : Str} {m : Nat}
    (hturn : announceTurn E c fi copies posts)
    (h : ∀ x ∈ copies, Yields (announceTurn E c) (· == peer) x (m * (triesLeft c x + 1))) :
    Yields (announceTurn E c) (· == peer) fi
      (posts.countP (· == peer) + ((copies.map (triesLeft c)).map fun k => m * (k + 1)).sum) := by
  rw [List.map_map]
  exact .step hturn (List.forall₂_map_right_iff.mpr (List.forall₂_same.mpr h))

/-- Where all fail, every retry goes to all of them again. -/
theorem yields_retries {d : Disk} (peer : Str) {fi : FileInfo} (hf : d.fileExists (postPath c fi) = true)
    (hne : unlisted c fi ≠ []) :
    Yields (announceTurn E c) (· == peer) fi ((unlisted c fi).countP (· == peer) * (triesLeft c fi + 1)) := by
  -- along the tries left: the first copy has one less than the entry
  induction hk : triesLeft c fi using Nat.strong_induction_on generalizing fi with
  | _ k ih =>
    obtain ⟨copies, hturn, hleft, hsame⟩ := announceTurn_failing (E := E) hf
    obtain ⟨final, hspawned⟩ := announceTurn_spawned hturn
    have hcopies : ∀ x ∈ copies, Yields (announceTurn E c) (· == peer) x
        ((unlisted c fi).countP (· == peer) * (triesLeft c x + 1)) := by
      intro x hx
      obtain ⟨hpeers, hpath⟩ := hsame x hx
      have hunlisted : unlisted c x = unlisted c fi := by rw [unlisted, hpeers, unlisted]
      rw [← hunlisted]
      exact ih _ (hk ▸ hspawned.triesLeft_lt hx) (hpath ▸ hf) (hunlisted ▸ hne) rfl
    refine (yields_of_copies hturn hcopies).mono ?_
    obtain ⟨n, hn⟩ := Nat.exists_eq_succ_of_ne_zero (mt List.length_eq_zero_iff.mp hne)
    rw [hleft, hn, hk]
    cases k with
    | zero => simp [spawn]
    | succ k =>
      simp only [spawn, List.map_cons, List.sum_cons]
      rw [Nat.mul_succ _ (k + 1)]
      omega

/-- With two failing peers there are more: the second copy goes round, too. -/
theorem yields_more {d : Disk} (peer : Str) {fi : FileInfo} (hf : d.fileExists (postPath c fi) = true)
    (hlen : 2 ≤ (unlisted c fi).length) (hk : 2 ≤ triesLeft c fi) :
    Yields (announceTurn E c) (· == peer) fi ((unlisted c fi).countP (· == peer) * (triesLeft c fi + 2)) := by
  obtain ⟨copies, hturn, hleft, hsame⟩ := announceTurn_failing (E := E) hf
  have hcopies : ∀ x ∈ copies, Yields (announceTurn E c) (· == peer) x
      ((unlisted c fi).countP (· == peer) * (triesLeft c x + 1)) := by
    intro x hx
    obtain ⟨hpeers, hpath⟩ := hsame x hx
    have hunlisted : unlisted c x = unlisted c fi := by rw [unlisted, hpeers, unlisted]
    rw [← hunlisted]
    refine yields_retries peer (hpath ▸ hf) fun hnil => ?_
    rw [← hunlisted, hnil] at hlen
    simp at hlen
  refine (yields_of_copies hturn hcopies).mono ?_
  obtain ⟨n, hn⟩ := Nat.exists_eq_add_of_le' hlen
  obtain ⟨k, hk⟩ := Nat.exists_eq_add_of_le' hk
  rw [hleft, hn, hk]
  simp only [spawn, List.map_cons, List.sum_cons]
  generalize (unlisted c fi).countP (· == peer) = m
  have hsplit : m * (k + 2 + 2) + m * k = m + (m * (k + 1 + 1) + m * (k + 1)) := by
    simp only [Nat.mul_add]
    omega
  omega

/-! ### The bound -/

/-- For every configuration and record: the retries end always, and no peer is sent more than
    `RetryCount + 2` notices in any run, exactly if there is one peer to tell at most, or if no
    retry is allowed and no peer is configured twice. -/
theorem announcements_are_bounded_iff {fi : FileInfo} (hretry : fi.retry = 0) (hcount : 0 ≤ c.retryCount) :
    RetriesBounded E c fi ↔ (unlisted c fi).length ≤ 1 ∨ c.retryCount = 0 ∧ (unlisted c fi).Nodup := by
  have hleft : (triesLeft c fi : Int) = c.retryCount + 1 := by
    unfold triesLeft
    omega
  constructor
  · intro h
    by_contra hno
    push Not at hno
    obtain ⟨hlen, hdup⟩ := hno
    obtain ⟨d, hf⟩ := Disk.exists_fileExists (p := postPath c fi) (by simp [postPath])
    -- a peer that the entry's yield is too much for
    obtain ⟨peer, k, hyields, hk⟩ : ∃ peer k, Yields (announceTurn E c) (· == peer) fi k ∧ c.retryCount + 2 < k := by
      by_cases hzero : c.retryCount = 0
      · have hnodup := hdup hzero
        rw [List.nodup_iff_count_le_one] at hnodup
        push Not at hnodup
        obtain ⟨peer, hpeer⟩ := hnodup
        refine ⟨peer, _, yields_retries peer hf (by rintro hnil; simp [hnil] at hlen), ?_⟩
        have htwo : 2 * (triesLeft c fi + 1) ≤ (unlisted c fi).countP (· == peer) * (triesLeft c fi + 1) :=
          Nat.mul_le_mul_right _ hpeer
        omega
      · obtain ⟨peer, hpeer⟩ := List.exists_mem_of_length_pos (by omega : 0 < (unlisted c fi).length)
        refine ⟨peer, _, yields_more peer hf hlen (by omega), ?_⟩
        have hone : 1 * (triesLeft c fi + 2) ≤ (unlisted c fi).countP (· == peer) * (triesLeft c fi + 2) :=
          Nat.mul_le_mul_right _ (List.count_pos_iff.mpr hpeer)
        omega
    obtain ⟨n, t, hrun, -, hposts⟩ := hyields.run
    have hle := h.2 n t peer hrun
    omega
  · intro h
    have hsingle : Single c fi := by
      rcases h with hlen | ⟨hzero, hnodup⟩
      · refine ⟨?_, Or.inl hlen⟩
        match unlisted c fi, hlen with
        | [], _ => exact List.nodup_nil
        | [x], _ => exact List.nodup_singleton x
      · exact ⟨hnodup, Or.inr (by omega)⟩
    refine ⟨⟨_, fun n t hrun => announcement_ends fi hrun⟩, fun n t peer hrun => ?_⟩
    have hle := hsingle.posts_le hrun peer
    omega

end

/-- One peer, and three posts to it at most. -/
theorem one_peer_is_not_flooded :
    RetriesBounded Env.plain { twoTries with retryCount := 1 } { unreached 0 with peers := [] } :=
  (announcements_are_bounded_iff rfl (by decide)).mpr (Or.inl (by decide))

def twoPeers : Config :=
  { peers := ["http://b:8080".toList, "http://c:8080".toList], retryCount := 1 }

def announcedDisk : Disk := Disk.ofFiles [("files/d/a.txt".toList, "hello".toList)]

/-- Two peers are down and one retry is allowed: the first pass leaves two copies, of which
    one leaves another, so that each peer is sent four notices. -/
theorem a_second_peer_brings_a_fourth_notice : ∃ n t,
    Worklist.Run (announceTurn Env.plain twoPeers) n (.one { unreached 0 with peers := [] }) t ∧ t.pending = [] ∧
      twoPeers.retryCount + 2 < (t.done.countP (· == "http://b:8080".toList) : Int) := by
  have hyields : Yields (announceTurn Env.plain twoPeers) (· == "http://b:8080".toList) { unreached 0 with peers := [] } _ :=
    yields_more (d := announcedDisk) _ (by decide +kernel) (by decide) (by decide)
  obtain ⟨n, t, hrun, hdone, hposts⟩ := hyields.run
  have hfour : (unlisted twoPeers { unreached 0 with peers := [] }).countP (· == "http://b:8080".toList) *
      (triesLeft twoPeers { unreached 0 with peers := [] } + 2) = 4 := by decide
  refine ⟨n, t, hrun, hdone, ?_⟩
  rw [hfour] at hposts
  exact lt_of_lt_of_le (by decide : twoPeers.retryCount + 2 < ((4 : Nat) : Int)) (Int.ofNat_le.mpr hposts)

end GoFastdfs
