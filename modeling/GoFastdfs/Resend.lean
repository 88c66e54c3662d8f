/-
  GoFastdfs.Resend — the files of a day's `errors.md5` log that are pushed again
  (`CheckFileAndSendToPeer` of `fileserver.go`).

  A record is left out when its `Peers` are more than the configured peers; whether a
  configured peer is among them is not asked. `Peers` holds what the pushes have put there,
  so a host that has left the configuration stays, and this node's own host is put there too.

  Proved: every logged file that a peer lacks is queued exactly if, for each, the digests
  read off the log name a record of the file with no more `Peers` than there are peers
  (`resends_iff`); so it is if `Peers` never repeats a host and names no other than this one
  and the configured ones (`resends_of_members`), and is not once two hosts have left
  (`hosts_that_left_stop_the_resend`).
-/

import GoFastdfs.Deletion

namespace GoFastdfs

open Go (Str)

variable (c : Config)

/-! ## Logged files -/

def LoggedError (s : Server) (date m : Str) : Prop := (s.logDB.get (logKey date CONST_Md5_ERROR_FILE_NAME m)).isSome = true

/-- The record of the digest is of a file, and does not name every peer. -/
structure LacksPeer (s : Server) (m : Str) (fi : FileInfo) : Prop where
  record : s.getFileInfoFromLevelDB m = some fi
  digest : fi.md5 ≠ []
  peer : ∃ p ∈ c.peers, p ∉ fi.peers

/-- The records differ in their `Peers` at most. -/
def SameButPeers (a b : FileInfo) : Prop := { a with peers := b.peers } = b

/-- The resend queues every logged file that some peer lacks. -/
def Resends (iter : List Str → List Str) (s : Server) (date : Str) : Prop :=
  ∃ added, (s.checkFileAndSendToPeer c iter date CONST_Md5_ERROR_FILE_NAME false).queueToPeers = s.queueToPeers ++ added ∧
    ∀ m fi, LoggedError s date m → LacksPeer c s m fi → ∃ e ∈ added, SameButPeers e fi

section
variable {c}

theorem SameButPeers.symm {a b : FileInfo} (h : SameButPeers a b) : SameButPeers b a := by
  unfold SameButPeers at h ⊢
  rw [← h]

theorem SameButPeers.trans {a b d : FileInfo} (h1 : SameButPeers a b) (h2 : SameButPeers b d) : SameButPeers a d := by
  unfold SameButPeers at h1 h2 ⊢
  rw [← h2, ← h1]

theorem SameButPeers.md5 {a b : FileInfo} (h : SameButPeers a b) : a.md5 = b.md5 := by
  unfold SameButPeers at h
  rw [← h]

/-! ## One record -/

/-- A record is queued exactly if it has a digest and no more `Peers` than there are peers;
    what is queued differs from it in its `Peers` at most. -/
theorem resent_isSome_iff {s : Server} {fi : FileInfo} :
    (s.resent c false fi).isSome = true ↔ fi.md5 ≠ [] ∧ fi.peers.length ≤ c.peers.length := by
  simp only [Server.resent, Bool.false_eq_true, if_false]
  split_ifs <;> simp_all

theorem sameButPeers_resent {s : Server} {fi e : FileInfo} (h : s.resent c false fi = some e) : SameButPeers e fi := by
  simp only [Server.resent, Bool.false_eq_true, if_false] at h
  split_ifs at h <;> cases h <;> rfl

/-! ## The log -/

def resentErrors (iter : List Str → List Str) (s : Server) (date : Str) : List FileInfo :=
  ((iter (s.getMd5sByDate date CONST_Md5_ERROR_FILE_NAME).dedup).filterMap s.getFileInfoFromLevelDB).filterMap
    (s.resent c false)

theorem checkFileAndSendToPeer_errors (iter : List Str → List Str) (s : Server) (date : Str) :
    (s.checkFileAndSendToPeer c iter date CONST_Md5_ERROR_FILE_NAME false).queueToPeers =
      s.queueToPeers ++ resentErrors (c := c) iter s date := by
  have hname : CONST_Md5_ERROR_FILE_NAME ≠ CONST_Md5_QUEUE_FILE_NAME := by decide
  simp only [Server.checkFileAndSendToPeer, hname, if_false, resentErrors]

theorem mem_resentErrors {iter : List Str → List Str} (hiter : ∀ l, (iter l).Perm l) {s : Server} {date : Str}
    {e : FileInfo} :
    e ∈ resentErrors (c := c) iter s date ↔
      ∃ m ∈ s.getMd5sByDate date CONST_Md5_ERROR_FILE_NAME, ∃ fi, s.getFileInfoFromLevelDB m = some fi ∧
        s.resent c false fi = some e := by
  simp only [resentErrors, List.mem_filterMap, (hiter _).mem_iff, List.mem_dedup]
  constructor
  · intro h
    obtain ⟨fi, ⟨m, hm, hfi⟩, he⟩ := h
    exact ⟨m, hm, fi, hfi, he⟩
  · intro h
    obtain ⟨m, hm, fi, hfi, he⟩ := h
    exact ⟨fi, ⟨m, hm, hfi⟩, he⟩

/-- A file is among the queued exactly if the digests read off the log name a record of it
    that is let through. -/
theorem exists_resent_iff {iter : List Str → List Str} (hiter : ∀ l, (iter l).Perm l) {s : Server} {date : Str}
    {fi : FileInfo} (hmd5 : fi.md5 ≠ []) :
    (∃ e ∈ resentErrors (c := c) iter s date, SameButPeers e fi) ↔
      ∃ m ∈ s.getMd5sByDate date CONST_Md5_ERROR_FILE_NAME, ∃ fi', s.getFileInfoFromLevelDB m = some fi' ∧
        SameButPeers fi' fi ∧ fi'.peers.length ≤ c.peers.length := by
  constructor
  · intro h
    obtain ⟨e, he, hsame⟩ := h
    obtain ⟨m, hm, fi', hfi', hresent⟩ := (mem_resentErrors hiter).mp he
    have hshort := (resent_isSome_iff.mp (Option.isSome_of_eq_some hresent)).2
    exact ⟨m, hm, fi', hfi', (sameButPeers_resent hresent).symm.trans hsame, hshort⟩
  · intro h
    obtain ⟨m, hm, fi', hfi', hsame, hshort⟩ := h
    have hmd5' : fi'.md5 ≠ [] := by rwa [hsame.md5]
    obtain ⟨e, he⟩ := Option.isSome_iff_exists.mp (resent_isSome_iff.mpr ⟨hmd5', hshort⟩)
    exact ⟨e, (mem_resentErrors hiter).mpr ⟨m, hm, fi', hfi', he⟩, (sameButPeers_resent he).trans hsame⟩

/-- The resend is complete exactly if, for every logged file that some peer lacks, the
    digests read off the log's keys name a record of that file with no more `Peers` than
    there are peers. -/
theorem resends_iff {iter : List Str → List Str} (hiter : ∀ l, (iter l).Perm l) (s : Server) (date : Str) :
    Resends c iter s date ↔
      ∀ m fi, LoggedError s date m → LacksPeer c s m fi →
        ∃ m' ∈ s.getMd5sByDate date CONST_Md5_ERROR_FILE_NAME, ∃ fi', s.getFileInfoFromLevelDB m' = some fi' ∧
          SameButPeers fi' fi ∧ fi'.peers.length ≤ c.peers.length := by
  constructor
  · intro hp m fi hlog hlack
    obtain ⟨added, hadded, hall⟩ := hp
    rw [checkFileAndSendToPeer_errors] at hadded
    obtain rfl := List.append_cancel_left hadded
    exact (exists_resent_iff hiter hlack.digest).mp (hall m fi hlog hlack)
  · intro h
    refine ⟨_, checkFileAndSendToPeer_errors iter s date, fun m fi hlog hlack => ?_⟩
    exact (exists_resent_iff hiter hlack.digest).mpr (h m fi hlog hlack)

/-! ## When the lengths tell -/

theorem length_le_of_lacks {peers : List Str} {host p : Str} (hnodup : peers.Nodup)
    (hmember : ∀ x ∈ peers, x = host ∨ x ∈ c.peers) (hp : p ∈ c.peers) (hlack : p ∉ peers) :
    peers.length ≤ c.peers.length := by
  have hsub : peers ⊆ (host :: c.peers).erase p := by
    intro x hx
    have hne : x ≠ p := fun e => hlack (e ▸ hx)
    exact (List.mem_erase_of_ne hne).mpr (List.mem_cons.mpr (hmember x hx))
  calc peers.length ≤ ((host :: c.peers).erase p).length := (List.subperm_of_subset hnodup hsub).length_le
    _ = c.peers.length := by rw [List.length_erase_of_mem (List.mem_cons_of_mem _ hp)]; rfl

/-- With plain dates and digests, and `Peers` kept so, the resend is complete. -/
theorem resends_of_members {iter : List Str → List Str} (hiter : ∀ l, (iter l).Perm l) {s : Server} {date : Str}
    (hdate : '_' ∉ date)
    (hlogged : ∀ m fi, LoggedError s date m → s.getFileInfoFromLevelDB m = some fi →
      '_' ∉ m ∧ fi.peers.Nodup ∧ ∀ x ∈ fi.peers, x = s.host ∨ x ∈ c.peers) :
    Resends c iter s date := by
  refine ⟨_, checkFileAndSendToPeer_errors iter s date, fun m fi hlog hlack => ?_⟩
  obtain ⟨hm, hnodup, hmember⟩ := hlogged m fi hlog hlack.record
  obtain ⟨p, hp, hnot⟩ := hlack.peer
  obtain ⟨v, hv⟩ := Option.isSome_iff_exists.mp hlog
  have hread := Server.mem_getMd5sByDate hdate (by decide) hm hv
  exact (exists_resent_iff hiter hlack.digest).mpr ⟨m, hread, fi, hlack.record, rfl,
    length_le_of_lacks hnodup hmember hp hnot⟩

end

/-! ## Fixed inputs -/

def pushedTo (peers : List Str) : FileInfo :=
  { name := "a".toList, path := "files".toList, md5 := "m".toList, size := 1, peers := peers, offSet := -1 }

def failedPush (peers : List Str) : Server :=
  { ldb := (∅ : Store Str Value).put "m".toList (.record (pushedTo peers))
    logDB := (∅ : Store Str FileInfo).put "20190101_errors.md5_m".toList (pushedTo peers)
    disk := { cwd := [], nodes := ∅ } }

theorem failedPush_record {peers : List Str} {m : Str} {fi : FileInfo}
    (h : (failedPush peers).getFileInfoFromLevelDB m = some fi) : fi = pushedTo peers := by
  simp only [failedPush, Server.getFileInfoFromLevelDB, Store.get_put, Store.get_empty] at h
  split_ifs at h
  exact (Option.some.inj h).symm

theorem resends_iff_failedPush : Resends Server.pairConfig id (failedPush ["http://c:8080".toList]) "20190101".toList :=
  (resends_iff (fun _ => .refl _) _ _).mpr fun _ fi _ hlack =>
    ⟨"m".toList, by decide +kernel, fi, by rw [failedPush_record hlack.record]; decide +kernel, rfl,
      by rw [failedPush_record hlack.record]; decide⟩

/-- Two hosts that have left the configuration are more than the one peer, which has not
    got the file. -/
theorem hosts_that_left_stop_the_resend :
    ¬ Resends Server.pairConfig id (failedPush ["http://c:8080".toList, "http://d:8080".toList]) "20190101".toList := by
  intro h
  obtain ⟨added, hadded, hall⟩ := h
  have hnone : resentErrors (c := Server.pairConfig) id (failedPush ["http://c:8080".toList, "http://d:8080".toList])
      "20190101".toList = [] := by decide +kernel
  rw [checkFileAndSendToPeer_errors, hnone] at hadded
  obtain rfl := List.append_cancel_left hadded
  obtain ⟨e, he, -⟩ := hall "m".toList (pushedTo ["http://c:8080".toList, "http://d:8080".toList])
    (by unfold LoggedError; decide +kernel) ⟨by decide +kernel, by decide, ⟨Server.peerB, by decide, by decide⟩⟩
  cases he

end GoFastdfs
