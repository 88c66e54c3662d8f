/-
  GoFastdfs.Announce — one record and all peers (`postFileToPeer` of `fileserver.go`).

  The loop goes through the configured peers with one copy of the record. It passes over a
  peer that the copy names, and over every peer while the file is not there; a peer that has
  the digest already, or takes the notice, is put on the copy's list, and the copy is saved;
  any other answer, or none, leaves an entry for the log of errors. Each peer finds the disk
  as it is at that moment.

  Proved: for every list of peers and every pattern of what they answer and find, the list
  grows by exactly the peers that confirmed, each once and in order, every peer that found
  the file and is not on the list in the end has left an entry, and the record saved last has
  the whole list (`every_peer_is_accounted_for`).
-/

import GoFastdfs.Sync

namespace GoFastdfs

open Go (Str)

variable (E : Env) (c : Config)

/-- A peer's turn in the loop: the disk as it is then, and what the peer answers. -/
structure Visit where
  peer : Str
  answer : PeerAnswer
  disk : Disk

namespace Visit

def finds (fi : FileInfo) (v : Visit) : Bool := v.disk.fileExists (postPath c fi)

/-- The peer is asked for the digest, and has it. -/
def told (fi : FileInfo) (v : Visit) : Bool := fi.offSet ≠ -2 && c.enableDistinctFile && v.answer.exist.md5 ≠ []

/-- The peer's answer to `syncfile_info` is an address. -/
def takes (v : Visit) : Bool := v.answer.sync.any (Go.hasPrefix · "http://".toList)

def confirms (fi : FileInfo) (v : Visit) : Bool := v.finds c fi && (v.told c fi || v.takes)

def missed (fi : FileInfo) (peers : List Str) (v : Visit) : Bool := v.finds c fi && !peers.contains v.peer

def posts (fi : FileInfo) (v : Visit) : Bool := !fi.peers.contains v.peer && v.finds c fi && !v.told c fi

end Visit

namespace Server

def visit (s : Server) (v : Visit) : Server := { s with disk := v.disk }

/-- The loop of `postFileToPeer`, each peer on its own disk: the server, the record, and the
    peers that are sent a `syncfile_info`. -/
def postVisits : Server → FileInfo → List Visit → Server × FileInfo × List Str
  | s, fi, [] => (s, fi, [])
  | s, fi, v :: vs =>
    let r := (s.visit v).postToPeer E c fi fi v.peer v.answer
    let r' := postVisits r.1 r.2.1 vs
    (r'.1, r'.2.1, (if v.posts c fi then [v.peer] else []) ++ r'.2.2)

/-- The record after an answer that is no address: counted up where the request failed and
    tries are left. -/
def retried (fi : FileInfo) (a : PeerAnswer) : FileInfo :=
  if a.sync = none ∧ fi.retry ≤ c.retryCount then { fi with retry := fi.retry + 1 } else fi

def requeued (fi : FileInfo) (a : PeerAnswer) : List FileInfo :=
  if a.sync = none ∧ fi.retry ≤ c.retryCount then [{ fi with retry := fi.retry + 1 }] else []

/-- What a turn does: nothing, or the peer is put on the list and the record saved, or an
    entry for the log of errors is left. -/
inductive VisitOutcome (s : Server) (fi : FileInfo) (v : Visit) : Server × FileInfo × List PeerEvent → Prop
  | passed (e : List PeerEvent) : (v.peer ∈ fi.peers ∨ v.finds c fi = false) → VisitOutcome s fi v (s.visit v, fi, e)
  | noted (n : Node) (e : List PeerEvent) : v.peer ∉ fi.peers → v.confirms c fi = true →
      VisitOutcome s fi v (((s.visit v).notePeer E (sized fi n) v.peer).1, ((s.visit v).notePeer E (sized fi n) v.peer).2, e)
  | failed (n : Node) (e : List PeerEvent) : v.peer ∉ fi.peers → v.finds c fi = true → v.confirms c fi = false →
      VisitOutcome s fi v
        (({ s.visit v with queueToPeers := s.queueToPeers ++ requeued c (sized fi n) v.answer } : Server).logLater
          (retried c (sized fi n) v.answer) CONST_Md5_ERROR_FILE_NAME, retried c (sized fi n) v.answer, e)

section
variable {E c}

theorem sized_offSet (fi : FileInfo) (n : Node) : (sized fi n).offSet = fi.offSet := by
  unfold sized
  split <;> rfl

theorem postToPeer_visit (s : Server) (fi : FileInfo) (v : Visit) :
    VisitOutcome E c s fi v ((s.visit v).postToPeer E c fi fi v.peer v.answer) := by
  unfold postToPeer
  by_cases hp : v.peer ∈ fi.peers
  · rw [if_pos hp]
    exact .passed _ (Or.inl hp)
  rw [if_neg hp]
  have hstat : (s.visit v).disk.stat (postPath c fi) = v.disk.stat (postPath c fi) := rfl
  rw [hstat]
  cases hn : v.disk.stat (postPath c fi) with
  | none => exact .passed _ (Or.inr (by simp [Visit.finds, Disk.fileExists, hn]))
  | some n =>
    have hfinds : v.finds c fi = true := by simp [Visit.finds, Disk.fileExists, hn]
    have hsized : (if fi.size = 0 then { fi with size := n.size } else fi) = sized fi n := rfl
    have htold : (sized fi n).offSet ≠ -2 ∧ c.enableDistinctFile = true ∧ v.answer.exist.md5 ≠ [] ↔
        v.told c fi = true := by
      rw [sized_offSet]
      simp [Visit.told, and_assoc]
    dsimp only
    rw [hsized]
    by_cases ht : v.told c fi = true
    · rw [if_pos (htold.mpr ht)]
      exact .noted n _ hp (by simp [Visit.confirms, hfinds, ht])
    rw [if_neg (mt htold.mp ht)]
    have hconfirms : v.confirms c fi = v.takes := by simp [Visit.confirms, hfinds, ht]
    cases hsync : v.answer.sync with
    | none =>
      have htakes : v.takes = false := by
        rw [Visit.takes, hsync]
        rfl
      have hout := VisitOutcome.failed (E := E) (c := c) (s := s) n [] hp hfinds (hconfirms.trans htakes)
      unfold requeued retried at hout
      dsimp only
      by_cases hr : (sized fi n).retry ≤ c.retryCount
      · rw [if_pos hr]
        rw [if_pos ⟨hsync, hr⟩, if_pos ⟨hsync, hr⟩] at hout
        exact hout
      · rw [if_neg hr]
        rw [if_neg fun h => hr h.2, if_neg fun h => hr h.2, List.append_nil] at hout
        exact hout
    | some result =>
      dsimp only
      by_cases haddr : Go.hasPrefix result "http://".toList = true
      · rw [if_pos haddr]
        have htakes : v.takes = true := by
          rw [Visit.takes, hsync]
          exact haddr
        exact .noted n _ hp (hconfirms.trans htakes)
      · rw [if_neg haddr]
        have htakes : v.takes = false := by
          rw [Visit.takes, hsync]
          exact eq_false_of_ne_true haddr
        have hout := VisitOutcome.failed (E := E) (c := c) (s := s) n [.sent v.peer fi] hp hfinds (hconfirms.trans htakes)
        unfold requeued retried at hout
        have hno : ¬ (v.answer.sync = none ∧ (sized fi n).retry ≤ c.retryCount) := by simp [hsync]
        rw [if_neg hno, if_neg hno, List.append_nil] at hout
        exact hout

end

/-! ## The whole loop -/

/-- The record with another list, size and count of tries. -/
def Variant (fi fi' : FileInfo) : Prop :=
  ∃ peers size retry, fi' = { fi with peers := peers, size := size, retry := retry }

def confirmed (c : Config) (fi : FileInfo) (vs : List Visit) : List Str :=
  (((vs.filter (·.confirms c fi)).map (·.peer)).filter (!fi.peers.contains ·)).eraseDups

/-- What the loop leaves: the server and the record. -/
structure Accounted (c : Config) (s : Server) (fi : FileInfo) (vs : List Visit) (last : Server)
    (final : FileInfo) : Prop where
  peers : final.peers = fi.peers ++ confirmed c fi vs
  errors : ∃ l, last.queueFileLog = s.queueFileLog ++ l ∧
    (∀ q ∈ l, q.fileName = CONST_Md5_ERROR_FILE_NAME ∧ Variant fi q.fileInfo) ∧
    (vs.filter (Visit.missed c fi final.peers)).length ≤ l.length
  saved : final.peers ≠ fi.peers → ∃ size, last.ldb.get fi.md5 = some (.record { final with size := size }.persist)
  unsaved : final.peers = fi.peers → last.ldb = s.ldb
  variant : Variant fi final

section
variable {E c}

theorem Variant.refl (fi : FileInfo) : Variant fi fi := ⟨_, _, _, rfl⟩

theorem Variant.trans {a b d : FileInfo} (h : Variant a b) (h' : Variant b d) : Variant a d := by
  obtain ⟨p, n, k, rfl⟩ := h
  obtain ⟨p', n', k', rfl⟩ := h'
  exact ⟨p', n', k', rfl⟩

theorem Variant.sized (fi : FileInfo) (n : Node) : Variant fi (sized fi n) := by
  unfold Server.sized
  split
  · exact ⟨_, _, _, rfl⟩
  · exact .refl fi

theorem Variant.retried (fi : FileInfo) (a : PeerAnswer) : Variant fi (retried c fi a) := by
  unfold Server.retried
  split
  · exact ⟨_, _, _, rfl⟩
  · exact .refl fi

theorem Variant.missed {fi fi' : FileInfo} (h : Variant fi fi') (peers : List Str) :
    Visit.missed c fi' peers = Visit.missed c fi peers := by
  obtain ⟨p, n, k, rfl⟩ := h
  rfl

theorem Variant.confirms {fi fi' : FileInfo} (h : Variant fi fi') (v : Visit) : v.confirms c fi' = v.confirms c fi := by
  obtain ⟨p, n, k, rfl⟩ := h
  rfl

theorem confirmed_passed {fi : FileInfo} {v : Visit} (h : v.peer ∈ fi.peers ∨ v.confirms c fi = false) (vs : List Visit) :
    confirmed c fi (v :: vs) = confirmed c fi vs := by
  unfold confirmed
  rcases h with h | h
  · by_cases hv : v.confirms c fi = true <;> simp [hv, h]
  · simp [h]

theorem confirmed_noted {fi fi' : FileInfo} {v : Visit} (hp : v.peer ∉ fi.peers) (hv : v.confirms c fi = true)
    (hvar : Variant fi fi') (hpeers : fi'.peers = fi.peers ++ [v.peer]) (vs : List Visit) :
    confirmed c fi (v :: vs) = v.peer :: confirmed c fi' vs := by
  unfold confirmed
  rw [List.filter_cons_of_pos hv, List.map_cons, List.filter_cons_of_pos (by simpa using hp), List.eraseDups_cons,
    List.filter_filter, hpeers]
  have hconf : ∀ w : Visit, w.confirms c fi' = w.confirms c fi := hvar.confirms
  simp only [hconf]
  congr 2
  apply List.filter_congr
  intro x _
  simp [beq_eq_decide, Bool.and_comm]

theorem confirmed_variant {fi fi' : FileInfo} (h : Variant fi fi') (hpeers : fi'.peers = fi.peers) (vs : List Visit) :
    confirmed c fi' vs = confirmed c fi vs := by
  have hconf : ∀ w : Visit, w.confirms c fi' = w.confirms c fi := h.confirms
  simp only [confirmed, hpeers, hconf]

/-- A turn that leaves the list as it was. -/
theorem Accounted.cons_kept {s s' : Server} {fi fi' : FileInfo} {v : Visit} {vs : List Visit}
    {last : Server} {final : FileInfo} (h : Accounted c s' fi' vs last final) (hvar : Variant fi fi')
    (hpeers : fi'.peers = fi.peers)
    (hldb : s'.ldb = s.ldb) (hv : v.peer ∈ fi.peers ∨ v.confirms c fi = false) (l : List FileLog)
    (hlog : s'.queueFileLog = s.queueFileLog ++ l)
    (hl : ∀ q ∈ l, q.fileName = CONST_Md5_ERROR_FILE_NAME ∧ Variant fi q.fileInfo)
    (hfail : v.peer ∉ fi.peers → v.finds c fi = true → l.length = 1) : Accounted c s fi (v :: vs) last final where
  peers := by rw [h.peers, hpeers, confirmed_variant hvar hpeers, confirmed_passed hv]
  errors := by
    obtain ⟨l', hl', hq, hlen⟩ := h.errors
    refine ⟨l ++ l', by rw [hl', hlog, List.append_assoc], ?_, ?_⟩
    · intro q hq'
      rcases List.mem_append.mp hq' with h' | h'
      · exact hl q h'
      · exact ⟨(hq q h').1, hvar.trans (hq q h').2⟩
    · rw [hvar.missed] at hlen
      rw [List.length_append]
      by_cases hv : v.missed c fi final.peers = true
      · have hone : l.length = 1 := by
          rw [Visit.missed, Bool.and_eq_true, Bool.not_eq_true', List.contains_eq_mem, decide_eq_false_iff_not, h.peers,
            hpeers] at hv
          exact hfail (fun hm => hv.2 (List.mem_append_left _ hm)) hv.1
        rw [List.filter_cons_of_pos hv, List.length_cons]
        omega
      · rw [List.filter_cons_of_neg hv]
        omega
  saved hne := by
    have hmd5 : fi'.md5 = fi.md5 := by
      obtain ⟨p, n, k, rfl⟩ := hvar
      rfl
    exact hmd5 ▸ h.saved (hpeers ▸ hne)
  unsaved heq := (h.unsaved (heq.trans hpeers.symm)).trans hldb
  variant := hvar.trans h.variant

/-- A turn that puts the peer on the list. -/
theorem Accounted.cons_noted {s s' : Server} {fi fi' : FileInfo} {v : Visit} {vs : List Visit}
    {last : Server} {final : FileInfo} (h : Accounted c s' fi' vs last final) (hvar : Variant fi fi')
    (hp : v.peer ∉ fi.peers) (hv : v.confirms c fi = true) (hpeers : fi'.peers = fi.peers ++ [v.peer])
    (hlog : s'.queueFileLog = s.queueFileLog) (hldb : s'.ldb.get fi.md5 = some (.record fi'.persist)) :
    Accounted c s fi (v :: vs) last final where
  peers := by rw [h.peers, hpeers, confirmed_noted hp hv hvar hpeers, List.append_assoc, List.singleton_append]
  errors := by
    obtain ⟨l, hl, hq, hlen⟩ := h.errors
    refine ⟨l, by rw [hl, hlog], fun q hq' => ⟨(hq q hq').1, hvar.trans (hq q hq').2⟩, ?_⟩
    have hmem : v.peer ∈ final.peers := by simp [h.peers, hpeers]
    rw [hvar.missed] at hlen
    rw [List.filter_cons_of_neg (by simp [Visit.missed, hmem])]
    exact hlen
  saved _ := by
    by_cases hsame : final.peers = fi'.peers
    · obtain ⟨p, n, k, hfinal⟩ := h.variant
      rw [hfinal] at hsame
      refine ⟨fi'.size, ?_⟩
      rw [h.unsaved (hfinal ▸ hsame), hldb, hfinal]
      obtain rfl : p = fi'.peers := hsame
      rfl
    · have hmd5 : fi'.md5 = fi.md5 := by
        obtain ⟨p, n, k, rfl⟩ := hvar
        rfl
      exact hmd5 ▸ h.saved hsame
  unsaved heq := by
    have hmem : v.peer ∈ final.peers := by simp [h.peers, hpeers]
    exact absurd (heq ▸ hmem) hp
  variant := hvar.trans h.variant

/-- Whatever the peers find and answer, in whatever order, none of them is lost. -/
theorem postVisits_accounted (s : Server) (fi : FileInfo) (vs : List Visit) :
    Accounted c s fi vs (postVisits E c s fi vs).1 (postVisits E c s fi vs).2.1 := by
  induction vs generalizing s fi with
  | nil =>
    exact ⟨by simp [postVisits, confirmed], ⟨[], by simp [postVisits]⟩, fun h => absurd rfl h, fun _ => rfl, .refl fi⟩
  | cons v vs ih =>
    have hturn := postToPeer_visit (E := E) (c := c) s fi v
    simp only [postVisits]
    generalize (s.visit v).postToPeer E c fi fi v.peer v.answer = t at hturn ⊢
    cases hturn with
    | passed e hv =>
      have hv' : v.peer ∈ fi.peers ∨ v.confirms c fi = false := hv.imp_right fun h => by simp [Visit.confirms, h]
      refine (ih _ _).cons_kept (.refl fi) rfl rfl hv' [] (List.append_nil _).symm (by simp) ?_
      intro hp hf
      rcases hv with h | h
      · exact absurd h hp
      · rw [h] at hf
        cases hf
    | noted n e hp hv =>
      refine (ih _ _).cons_noted ((Variant.sized fi n).trans ⟨_, _, _, rfl⟩) hp hv ?_ rfl ?_
      · rw [← sized_peers fi n]
        rfl
      · rw [← sized_md5 fi n]
        exact Store.get_put_self ..
    | failed n e hp hf hv =>
      have hvar := (Variant.sized fi n).trans (Variant.retried (c := c) (sized fi n) v.answer)
      refine (ih _ _).cons_kept hvar ?_ rfl (Or.inr hv) [⟨retried c (sized fi n) v.answer, CONST_Md5_ERROR_FILE_NAME⟩]
        rfl ?_ fun _ _ => rfl
      · rw [← sized_peers fi n]
        unfold retried
        split <;> rfl
      · intro q hq
        obtain rfl := List.mem_singleton.mp hq
        exact ⟨rfl, hvar⟩

end

end Server

/-! ## The configured peers -/

/-- The turns of the configured peers; `turn` gives the answer and the disk of each. -/
def Config.visits (c : Config) (turn : Nat → PeerAnswer × Disk) : List Visit :=
  c.peers.zipIdx.map fun x => ⟨x.1, (turn x.2).1, (turn x.2).2⟩

namespace Server

theorem postToPeer_entry (s : Server) (entry fi : FileInfo) (peer : Str) (a : PeerAnswer) :
    (s.postToPeer E c entry fi peer a).1 = (s.postToPeer E c fi fi peer a).1 ∧
      (s.postToPeer E c entry fi peer a).2.1 = (s.postToPeer E c fi fi peer a).2.1 := by
  unfold postToPeer
  by_cases hp : peer ∈ fi.peers
  · simp only [if_pos hp, and_self]
  simp only [if_neg hp]
  cases s.disk.stat (postPath c fi) with
  | none => exact ⟨rfl, rfl⟩
  | some n =>
    dsimp only
    generalize (if fi.size = 0 then { fi with size := n.size } else fi) = fi'
    by_cases ht : fi'.offSet ≠ -2 ∧ c.enableDistinctFile = true ∧ a.exist.md5 ≠ []
    · simp only [if_pos ht, and_self]
    simp only [if_neg ht]
    cases a.sync with
    | none => exact ⟨rfl, rfl⟩
    | some result =>
      dsimp only
      split <;> exact ⟨rfl, rfl⟩

theorem postLoop_eq_postVisits (entry : FileInfo) (l : List (Str × PeerAnswer)) (s : Server) (fi : FileInfo) :
    (postLoop E c entry s fi l).1 = (postVisits E c s fi (l.map fun x => ⟨x.1, x.2, s.disk⟩)).1 ∧
      (postLoop E c entry s fi l).2.1 = (postVisits E c s fi (l.map fun x => ⟨x.1, x.2, s.disk⟩)).2.1 := by
  induction l generalizing s fi with
  | nil => exact ⟨rfl, rfl⟩
  | cons x l ih =>
    obtain ⟨hs, hfi⟩ := postToPeer_entry (E := E) (c := c) s entry fi x.1 x.2
    have hdisk := (postToPeer_turn (E := E) (c := c) s fi fi x.1 x.2).disk
    have hrest := ih (s.postToPeer E c fi fi x.1 x.2).1 (s.postToPeer E c fi fi x.1 x.2).2.1
    rw [hdisk] at hrest
    simp only [postLoop, hs, hfi]
    exact hrest

/-- While the disk stays as it is, the loop is the one of `postFileToPeer`. -/
theorem postFileToPeer_eq_postVisits (s : Server) (fi : FileInfo) (answer : Nat → PeerAnswer) :
    let r := postVisits E c s fi (c.visits fun k => (answer k, s.disk))
    (s.postFileToPeer E c fi answer).1 = r.1 ∧ (s.postFileToPeer E c fi answer).2.1 = r.2.1 := by
  have h := postLoop_eq_postVisits (E := E) (c := c) fi (c.peers.zipIdx.map fun x => (x.1, answer x.2)) s fi
  rw [List.map_map] at h
  exact h

/-- For every list of peers, with repeats or without, and every mixture of outcomes: the peers
    that confirmed are on the list, the others have left an entry in the log of errors, and the
    record saved has the whole list. So it is of `postFileToPeer`, which sees one disk. -/
theorem every_peer_is_accounted_for (s : Server) (fi : FileInfo) :
    (∀ turn, let r := postVisits E c s fi (c.visits turn)
      Accounted c s fi (c.visits turn) r.1 r.2.1) ∧
    ∀ answer, let r := s.postFileToPeer E c fi answer
      Accounted c s fi (c.visits fun k => (answer k, s.disk)) r.1 r.2.1 := by
  refine ⟨fun turn => postVisits_accounted s fi _, fun answer => ?_⟩
  obtain ⟨hs, hfi⟩ := postFileToPeer_eq_postVisits (E := E) (c := c) s fi answer
  simp only [hs, hfi]
  exact postVisits_accounted s fi _

end Server

end GoFastdfs
