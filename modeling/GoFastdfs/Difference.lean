/-
  GoFastdfs.Difference — what a repair exchanges for one day (`AutoRepair` of
  `http_repair.go`, `GetMd5sByDate` of `fileserver.go`, `GetMd5sForWeb` and `ReceiveMd5s` of
  `http_info.go`).

  Each node's digests of the day are the third pieces of its log keys. The peer's come as one
  line, joined with commas; an empty line is read back as a set with the empty text in it. The
  union of the two sets less either is what the other lacks: one part goes to the peer as a
  line, the other is queued here, record by record.

  Proved: a line of digests is read back as they were, but for the empty text of an empty line
  (`mem_getMd5sForWeb`), and for every pair of states and every day on which the sets are
  compared, either node queues the records it has of the digests that the other lacks, each
  once, and nothing else, unless one of them is the empty text and the peer's line is empty
  (`autoRepair_exchanges`).
-/

import GoFastdfs.Sync

namespace GoFastdfs

open Go (Str)

variable (c : Config)

namespace Server

def repairTurns (iter : List Str → List Str) (s : Server) (force : Bool) (answer : Nat → RepairAnswer) :
    List (List FileInfo × List RepairRequest) :=
  c.peers.zipIdx.flatMap fun x => ((answer x.2).stat.getD []).map fun row => repairDay iter s force x.1 (answer x.2) row

def digestsOf (s : Server) (date : Str) : List Str := (s.getMd5sByDate date CONST_FILE_Md5_FILE_NAME).filter (· ≠ [])

structure Compares (s : Server) (force : Bool) (row : StatDateFileInfo) : Prop where
  day : row.date ≠ "all".toList
  known : ∃ n, s.statMap.get (countKey row.date) = some n ∧ (n ≠ row.fileCount ∨ force = true)

/-- What a turn queues here, and has the peer queue whatever state that is in by then: the
    records of the digests that the other node lacks, each digest once. -/
structure Exchanges (s : Server) (mine theirs : List Str) (peer : Str) (r : List FileInfo × List RepairRequest) : Prop where
  here : ∃ l : List Str, l.Nodup ∧ (∀ m, m ∈ l ↔ m ∈ mine ∧ m ∉ theirs) ∧ r.1 = l.filterMap s.getFileInfoFromLevelDB
  there : ∃ (l : List Str) (md5s : Str), l.Nodup ∧ (∀ m, m ∈ l ↔ m ∈ theirs ∧ m ∉ mine) ∧
    r.2 = [.receiveMd5s peer md5s] ∧ ∀ b : Server, b.receiveMd5s md5s = l.filterMap b.getFileInfoFromLevelDB

/-- The node has logged a record without a digest for the day, and the peer's line is empty:
    the empty text that is read from it passes for the digest. -/
structure Hides (s b : Server) (date : Str) : Prop where
  mine : [] ∈ s.getMd5sByDate date CONST_FILE_Md5_FILE_NAME
  found : s.getFileInfoFromLevelDB [] ≠ none
  theirs : b.digestsOf date = []

section
variable {c}

/-! ## Lines -/

/-- A line of digests, read back. The line of none has the empty text in it. -/
theorem splitOn_line {l : List Str} (hcomma : ∀ m ∈ l, ',' ∉ m) :
    (([','] : Str).intercalate l).splitOn ',' = if l = [] then [[]] else l := by
  split
  · rename_i hnil
    rw [hnil]
    rfl
  · rename_i hne
    exact List.splitOn_intercalate _ hcomma hne

/-- The empty text of a line is no digest to the node that receives it. -/
theorem receiveMd5s_line {l : List Str} (hcomma : ∀ m ∈ l, ',' ∉ m) (b : Server) :
    b.receiveMd5s (([','] : Str).intercalate l) = (l.filter (· ≠ [])).filterMap b.getFileInfoFromLevelDB := by
  rw [receiveMd5s, splitOn_line hcomma]
  split
  · rename_i hnil
    rw [hnil]
    rfl
  · rfl

theorem mem_getMd5sForWeb {iter : List Str → List Str} (hiter : ∀ l, (iter l).Perm l) {b : Server} {date m : Str}
    (hcomma : ∀ x ∈ b.getMd5sByDate date CONST_FILE_Md5_FILE_NAME, ',' ∉ x) :
    m ∈ (b.getMd5sForWeb iter date).splitOn ',' ↔ m ∈ b.digestsOf date ∨ m = [] ∧ b.digestsOf date = [] := by
  have hmem : ∀ x, x ∈ (iter (b.getMd5sByDate date CONST_FILE_Md5_FILE_NAME).dedup).filter (· ≠ []) ↔ x ∈ b.digestsOf date := by
    intro x
    rw [digestsOf, List.mem_filter, List.mem_filter, (hiter _).mem_iff, List.mem_dedup]
  have hnil : (iter (b.getMd5sByDate date CONST_FILE_Md5_FILE_NAME).dedup).filter (· ≠ []) = [] ↔ b.digestsOf date = [] := by
    simp only [List.eq_nil_iff_forall_not_mem, hmem]
  have hcomma' : ∀ x ∈ (iter (b.getMd5sByDate date CONST_FILE_Md5_FILE_NAME).dedup).filter (· ≠ []), ',' ∉ x :=
    fun x hx => hcomma x (List.mem_filter.mp ((hmem x).mp hx)).1
  rw [getMd5sForWeb, splitOn_line hcomma']
  split
  · rename_i h
    simp [hnil.mp h]
  · rename_i h
    simp only [hmem, mt hnil.mpr h, and_false, or_false]

/-! ## One day -/

theorem repairDay_there {iter : List Str → List Str} (hiter : ∀ l, (iter l).Perm l) (mine : List Str) {theirs line : List Str}
    (hline : ∀ m, m ∈ line ↔ m ∈ theirs ∨ m = [] ∧ theirs = []) (htheirs : ∀ m ∈ theirs, m ≠ [] ∧ ',' ∉ m) :
    ∃ l : List Str, l.Nodup ∧ (∀ m, m ∈ l ↔ m ∈ theirs ∧ m ∉ mine) ∧
      ∀ b : Server, b.receiveMd5s (([','] : Str).intercalate (iter (line.dedup.filter (· ∉ mine.dedup)))) =
        l.filterMap b.getFileInfoFromLevelDB := by
  have hcomma : ∀ m ∈ iter (line.dedup.filter (· ∉ mine.dedup)), ',' ∉ m := by
    intro m hm
    rcases (hline m).mp (List.mem_dedup.mp (List.mem_filter.mp ((hiter _).mem_iff.mp hm)).1) with hm | ⟨hm, -⟩
    · exact (htheirs m hm).2
    · simp [hm]
  refine ⟨(iter (line.dedup.filter (· ∉ mine.dedup))).filter (· ≠ []), ?_, fun m => ?_, receiveMd5s_line hcomma⟩
  · exact ((hiter _).nodup_iff.mpr ((List.nodup_dedup _).filter _)).filter _
  · simp only [List.mem_filter, (hiter _).mem_iff, List.mem_dedup, decide_eq_true_eq, hline]
    constructor
    · intro hp
      obtain ⟨⟨hm | ⟨hm, -⟩, hnot⟩, hne⟩ := hp
      · exact ⟨hm, hnot⟩
      · exact absurd hm hne
    · intro hp
      obtain ⟨hm, hnot⟩ := hp
      exact ⟨⟨Or.inl hm, hnot⟩, (htheirs m hm).1⟩

/-- What a turn queues here: the local digests that the line does not have. They are those that
    the peer lacks, unless the empty one is hidden. -/
theorem repairDay_here {iter : List Str → List Str} (hiter : ∀ l, (iter l).Perm l) (get : Str → Option FileInfo)
    (mine : List Str) {theirs line : List Str} (hline : ∀ m, m ∈ line ↔ m ∈ theirs ∨ m = [] ∧ theirs = []) :
    (∃ l : List Str, l.Nodup ∧ (∀ m, m ∈ l ↔ m ∈ mine ∧ m ∉ theirs) ∧
      (iter (mine.dedup.filter (· ∉ line.dedup))).filterMap get = l.filterMap get) ↔
        ¬ ([] ∈ mine ∧ get [] ≠ none ∧ theirs = []) := by
  have hmem : ∀ m, m ∈ iter (mine.dedup.filter (· ∉ line.dedup)) ↔ m ∈ mine ∧ m ∉ theirs ∧ ¬ (m = [] ∧ theirs = []) := by
    intro m
    simp only [(hiter _).mem_iff, List.mem_filter, List.mem_dedup, decide_eq_true_eq, hline, not_or]
  have hnodup : (iter (mine.dedup.filter (· ∉ line.dedup))).Nodup :=
    (hiter _).nodup_iff.mpr ((List.nodup_dedup _).filter _)
  generalize iter (mine.dedup.filter (· ∉ line.dedup)) = queued at hmem hnodup
  by_cases hhid : [] ∈ mine ∧ theirs = []
  · -- all local digests but the empty one
    obtain ⟨hmine, rfl⟩ := hhid
    have hcons : ([] :: queued).Nodup ∧ ∀ m, m ∈ [] :: queued ↔ m ∈ mine := by
      refine ⟨List.nodup_cons.mpr ⟨fun h => ((hmem []).mp h).2.2 ⟨rfl, rfl⟩, hnodup⟩, fun m => ?_⟩
      rw [List.mem_cons, hmem]
      by_cases hm : m = []
      · simp [hm, hmine]
      · simp [hm]
    constructor
    · intro hx hlost
      obtain ⟨l, hl, hlm, heq⟩ := hx
      have hperm : l.Perm ([] :: queued) := by
        refine (List.perm_ext_iff_of_nodup hl hcons.1).mpr fun m => ?_
        rw [hlm, hcons.2]
        simp
      obtain ⟨v, hv⟩ := Option.ne_none_iff_exists'.mp hlost.2.1
      have hlen := (hperm.filterMap get).length_eq
      rw [← heq, List.filterMap_cons_some hv, List.length_cons] at hlen
      omega
    · intro hno
      have hget : get [] = none := by
        by_contra hne
        exact hno ⟨hmine, hne, rfl⟩
      refine ⟨[] :: queued, hcons.1, fun m => ?_, ?_⟩
      · rw [hcons.2]
        simp
      · rw [List.filterMap_cons_none hget]
  · refine iff_of_true ⟨queued, hnodup, fun m => ?_, rfl⟩ fun h => hhid ⟨h.1, h.2.2⟩
    rw [hmem]
    refine and_congr_right fun hm => and_iff_left fun h => hhid ⟨h.1 ▸ hm, h.2⟩

/-- The two differences of one day. -/
theorem repairDay_exchanges {iter iter' : List Str → List Str} (hiter : ∀ l, (iter l).Perm l) (hiter' : ∀ l, (iter' l).Perm l)
    {s b : Server} {force : Bool} {peer : Str} {a : RepairAnswer} {row : StatDateFileInfo} (hcompares : s.Compares force row)
    (ha : a.md5s row.date = some (b.getMd5sForWeb iter' row.date))
    (htheirs : ∀ m ∈ b.getMd5sByDate row.date CONST_FILE_Md5_FILE_NAME, ',' ∉ m) :
    s.Exchanges (s.getMd5sByDate row.date CONST_FILE_Md5_FILE_NAME) (b.digestsOf row.date) peer
      (repairDay iter s force peer a row) ↔ ¬ s.Hides b row.date := by
  obtain ⟨n, hn, hcount⟩ := hcompares.known
  have hline := fun m => mem_getMd5sForWeb (m := m) hiter' htheirs
  have hpieces : ∀ m ∈ b.digestsOf row.date, m ≠ [] ∧ ',' ∉ m := by
    intro m hm
    obtain ⟨hm, hne⟩ := List.mem_filter.mp hm
    exact ⟨by simpa using hne, htheirs m hm⟩
  have hhere := repairDay_here hiter s.getFileInfoFromLevelDB (s.getMd5sByDate row.date CONST_FILE_Md5_FILE_NAME) hline
  obtain ⟨l, hl, hlm, hthere⟩ := repairDay_there hiter (s.getMd5sByDate row.date CONST_FILE_Md5_FILE_NAME) hline hpieces
  have hhides : s.Hides b row.date ↔ [] ∈ s.getMd5sByDate row.date CONST_FILE_Md5_FILE_NAME ∧
      s.getFileInfoFromLevelDB [] ≠ none ∧ b.digestsOf row.date = [] :=
    ⟨fun h => ⟨h.mine, h.found, h.theirs⟩, fun h => ⟨h.1, h.2.1, h.2.2⟩⟩
  simp only [repairDay, if_neg hcompares.day, hn, if_pos hcount, ha]
  rw [hhides, ← hhere]
  exact ⟨fun h => h.here, fun h => ⟨h, l, _, hl, hlm, rfl, hthere⟩⟩

theorem autoRepair_eq (iter : List Str → List Str) (s : Server) (force : Bool) (answer : Nat → RepairAnswer) :
    autoRepair c iter s force answer =
      ((repairTurns c iter s force answer).flatMap (·.1), (repairTurns c iter s force answer).flatMap (·.2)) := rfl

/-- A repair is one turn for each day of each peer's statistics. On every day on which the sets
    are compared the turn exchanges exactly what either node lacks, unless the empty digest
    is hidden. -/
theorem autoRepair_exchanges {iter iter' : List Str → List Str} (hiter : ∀ l, (iter l).Perm l)
    (hiter' : ∀ l, (iter' l).Perm l) (s : Server) (force : Bool) (answer : Nat → RepairAnswer) :
    autoRepair c iter s force answer =
        ((repairTurns c iter s force answer).flatMap (·.1), (repairTurns c iter s force answer).flatMap (·.2)) ∧
      ∀ (i : Nat) (peer : Str) (row : StatDateFileInfo) (b : Server), c.peers[i]? = some peer →
        row ∈ (answer i).stat.getD [] → s.Compares force row →
        (answer i).md5s row.date = some (b.getMd5sForWeb iter' row.date) →
        (∀ m ∈ b.getMd5sByDate row.date CONST_FILE_Md5_FILE_NAME, ',' ∉ m) →
          repairDay iter s force peer (answer i) row ∈ repairTurns c iter s force answer ∧
            (s.Exchanges (s.getMd5sByDate row.date CONST_FILE_Md5_FILE_NAME) (b.digestsOf row.date) peer
              (repairDay iter s force peer (answer i) row) ↔ ¬ s.Hides b row.date) := by
  refine ⟨autoRepair_eq iter s force answer, fun i peer row b hpeer hrow hcompares ha htheirs => ⟨?_, ?_⟩⟩
  · refine List.mem_flatMap.mpr ⟨(peer, i), List.mem_zipIdx_iff_getElem?.mpr hpeer, ?_⟩
    exact List.mem_map.mpr ⟨row, hrow, rfl⟩
  · exact repairDay_exchanges hiter hiter' hcompares ha htheirs

end

/-- One node has the digest of a day, the other knows the day and has none. -/
theorem a_digest_for_none_is_exchanged :
    autoRepair pairConfig id (nodeA []) false fromB =
        ((repairTurns pairConfig id (nodeA []) false fromB).flatMap (·.1),
          (repairTurns pairConfig id (nodeA []) false fromB).flatMap (·.2)) ∧
      (nodeA []).Exchanges ((nodeA []).getMd5sByDate "20190101".toList CONST_FILE_Md5_FILE_NAME)
        (nodeB.digestsOf "20190101".toList) peerB (repairDay id (nodeA []) false peerB (fromB 0)
          ⟨"20190101".toList, 0, 0⟩) := by
  obtain ⟨hturns, hdays⟩ := autoRepair_exchanges (c := pairConfig) (fun _ => .refl _) (fun _ => .refl _) (nodeA []) false fromB
  refine ⟨hturns, ?_⟩
  have hrow : ⟨"20190101".toList, 0, 0⟩ ∈ (fromB 0).stat.getD [] := by decide +kernel
  refine (hdays 0 peerB ⟨"20190101".toList, 0, 0⟩ nodeB rfl hrow ⟨by decide, 1, rfl, Or.inl (by decide)⟩ rfl
    (by decide +kernel)).2.mpr fun h => h.found ?_
  decide +kernel

/-- The day's only record came without a digest, to be migrated. -/
def nodeC : Server :=
  let s : Server := { disk := { cwd := [], nodes := ∅ }, statMap := (∅ : Store Str Int).put (countKey (Env.plain.day 0)) 0 }
  (s.syncFileInfo Env.plain pairConfig { name := "a".toList, path := "files".toList, size := 1, offSet := -2 }
    "c:8080".toList).1

/-- Its digest is in the local set and not in the peer's, its record is there, and it is not
    queued. -/
theorem an_empty_digest_is_not_exchanged :
    let day := Env.plain.day 0
    [] ∈ nodeC.getMd5sByDate day CONST_FILE_Md5_FILE_NAME ∧ nodeB.getMd5sByDate day CONST_FILE_Md5_FILE_NAME = [] ∧
      nodeC.getFileInfoFromLevelDB [] ≠ none ∧
      (autoRepair pairConfig id nodeC true fun _ => ⟨some [⟨day, 0, 0⟩], fun d => some (nodeB.getMd5sForWeb id d)⟩).1 = [] := by
  decide +kernel

end Server

end GoFastdfs
