/-
  GoFastdfs.StatFile — the statistics over restarts (`SaveStat`, `FormatStatInfo`).

  The counters live in memory. Whenever `saveFileMd5Log` or `RepairStatByDate` changes one,
  the whole map is written to `stat.json`; a restart begins with zeros and reads the file
  back. A JSON number is read as a `float64`, printed and parsed again, so the file is kept
  here as the numbers it spells. A map without the key `fileCount` would not be written; the
  key is there from the start and no operation changes it. A file cut off while it is
  written is left out.

  Proved: while the counters stay within 2 to the 53, restarts anywhere in a run change
  nothing: the databases and every counter are those of the run without them
  (`restarts_change_nothing`). A restart right after a save keeps the counters exactly if
  each of them is a float64 (`restart_keeps_iff`), and restarts after it keep them
  (`restarts_settle`).
-/

import GoFastdfs.Go.Float
import GoFastdfs.RepairStat
import GoFastdfs.Redelivery

namespace GoFastdfs

open Go (Str)

variable (E : Env) (c : Config)

/-- A node with the numbers that `stat.json` spells, if there is one. -/
structure StatNode where
  server : Server
  file : Option (Store Str Int) := none

def newStatMap (today : Str) : Store Str Int :=
  (((Store.put ∅ CONST_STAT_FILE_COUNT_KEY 0).put CONST_STAT_FILE_TOTAL_SIZE_KEY 0).put (Server.countKey today) 0).put
    (Server.totalSizeKey today) 0

def countsEntry (s : Server) (fi : FileInfo) (filename : Str) : Bool :=
  fi.md5 ≠ [] && (filename == CONST_FILE_Md5_FILE_NAME && !s.isExistFromLevelDB fi.md5 ||
    filename == CONST_REMOME_Md5_FILE_NAME && s.isExistFromLevelDB fi.md5)

/-- One number of the file put into the map; one that does not fit an int64 is left out. -/
def readStat (m : Store Str Int) (e : Sigma fun _ : Str => Int) : Store Str Int :=
  if -2 ^ 63 ≤ Go.float64 e.2 ∧ Go.float64 e.2 < 2 ^ 63 then m.put e.1 (Go.float64 e.2) else m

namespace StatNode

def saveStat (p : StatNode) : StatNode :=
  match p.server.statMap.get CONST_STAT_FILE_COUNT_KEY with
  | some v => if 0 ≤ v then { p with file := some p.server.statMap } else p
  | none => p

def saveFileMd5Log (p : StatNode) (fi : FileInfo) (filename : Str) : StatNode :=
  let q : StatNode := { p with server := p.server.saveFileMd5Log E fi filename }
  if countsEntry p.server fi filename then q.saveStat else q

def repairStatByDate (p : StatNode) (date : Str) : StatNode :=
  { p with server := (p.server.repairStatByDate c date).2 }.saveStat

def formatStatInfo (p : StatNode) (today : Str) : StatNode :=
  match p.file with
  | some m => { p with server := { p.server with statMap := m.entries.foldl readStat p.server.statMap } }
  | none => p.repairStatByDate c today

def restart (p : StatNode) (today : Str) : StatNode :=
  { p with server := { p.server.restart with statMap := newStatMap today } }.formatStatInfo c today

end StatNode

/-- What happens to a node: log entries, repairs, other writes to the databases, changes of the
    disk, and restarts. -/
inductive StatOp where
  | save (fi : FileInfo) (filename : Str)
  | repair (date : Str)
  | record (key : Str) (fi : FileInfo) (db : DB)
  | drop (key : Str) (db : DB)
  | files (d : Disk)
  | restart (today : Str)

namespace StatOp

def run (p : StatNode) : StatOp → StatNode
  | .save fi filename => p.saveFileMd5Log E fi filename
  | .repair date => p.repairStatByDate c date
  | .record key fi db => { p with server := p.server.saveFileInfoToLevelDB E key fi db }
  | .drop key db => { p with server := p.server.removeKeyFromLevelDB key db }
  | .files d => { p with server := { p.server with disk := d } }
  | .restart today => p.restart c today

def isRestart : StatOp → Bool
  | .restart _ => true
  | _ => false

end StatOp

/-! ## Two nodes that count alike -/

/-- The same databases and disk, and the same counters. -/
structure Alike (s s' : Server) : Prop where
  ldb : s.ldb = s'.ldb
  logDB : s.logDB = s'.logDB
  disk : s.disk = s'.disk
  stat : ∀ k, s.stat k = s'.stat k

variable {E c}

namespace Alike

variable {s s' : Server}

theorem refl (s : Server) : Alike s s := ⟨rfl, rfl, rfl, fun _ => rfl⟩

theorem addCount (h : Alike s s') (key : Str) (n : Int) : Alike (s.addCount key n) (s'.addCount key n) :=
  ⟨h.ldb, h.logDB, h.disk, fun k => by rw [stat_addCount, stat_addCount, h.stat]⟩

theorem saveFileInfo (h : Alike s s') (key : Str) (fi : FileInfo) (db : DB) :
    Alike (s.saveFileInfoToLevelDB E key fi db) (s'.saveFileInfoToLevelDB E key fi db) := by
  cases db with
  | ldb =>
    refine ⟨?_, ?_, h.disk, h.stat⟩
    · simp only [Server.saveFileInfoToLevelDB, h.ldb]
    · simp only [Server.saveFileInfoToLevelDB, h.logDB]
  | logDB =>
    refine ⟨h.ldb, ?_, h.disk, h.stat⟩
    simp only [Server.saveFileInfoToLevelDB, h.logDB]

theorem removeKey (h : Alike s s') (key : Str) (db : DB) :
    Alike (s.removeKeyFromLevelDB key db) (s'.removeKeyFromLevelDB key db) := by
  cases db with
  | ldb =>
    refine ⟨?_, h.logDB, h.disk, h.stat⟩
    simp only [Server.removeKeyFromLevelDB, h.ldb]
  | logDB =>
    refine ⟨h.ldb, ?_, h.disk, h.stat⟩
    simp only [Server.removeKeyFromLevelDB, h.logDB]

theorem saveFileMd5Log (h : Alike s s') (fi : FileInfo) (filename : Str) :
    Alike (s.saveFileMd5Log E fi filename) (s'.saveFileMd5Log E fi filename) := by
  have hexist : s.isExistFromLevelDB fi.md5 = s'.isExistFromLevelDB fi.md5 := by
    rw [Server.isExistFromLevelDB, Server.isExistFromLevelDB, h.ldb]
  simp only [Server.saveFileMd5Log, hexist]
  split_ifs
  · exact h
  · exact ((h.saveFileInfo _ _ _).saveFileInfo _ _ _).saveFileInfo _ _ _
  · exact ((((h.addCount _ _).addCount _ _).saveFileInfo _ _ _).saveFileInfo _ _ _).saveFileInfo _ _ _
  · exact ((((h.addCount _ _).addCount _ _).removeKey _ _).removeKey _ _).removeKey _ _ |>.removeKey _ _
  · exact ((h.removeKey _ _).removeKey _ _).removeKey _ _ |>.removeKey _ _
  · exact h.saveFileInfo _ _ _

theorem put (h : Alike s s') (key : Str) (n : Int) :
    Alike { s with statMap := s.statMap.put key n } { s' with statMap := s'.statMap.put key n } := by
  refine ⟨h.ldb, h.logDB, h.disk, fun k => ?_⟩
  have hk := h.stat k
  simp only [Server.stat, Store.get_put] at hk ⊢
  split_ifs
  · rfl
  · exact hk

theorem repairStatByDate (h : Alike s s') (date : Str) :
    Alike (s.repairStatByDate c date).2 (s'.repairStatByDate c date).2 := by
  have hloop : repairStatLoop c s.disk (s.loadFileInfoByDate date CONST_FILE_Md5_FILE_NAME) [] 0 0 =
      repairStatLoop c s'.disk (s'.loadFileInfoByDate date CONST_FILE_Md5_FILE_NAME) [] 0 0 := by
    rw [Server.loadFileInfoByDate, Server.loadFileInfoByDate, h.logDB, h.disk]
  simp only [Server.repairStatByDate]
  rw [hloop]
  exact (h.put _ _).put _ _

end Alike

/-! ## Reading the file back -/

def readBack (v : Int) : Option Int :=
  if -2 ^ 63 ≤ Go.float64 v ∧ Go.float64 v < 2 ^ 63 then some (Go.float64 v) else none

theorem readBack_of_le {v : Int} (h : v.natAbs ≤ 2 ^ 53) : readBack v = some v := by
  rw [readBack, Go.float64_of_le h, if_pos (by omega)]

theorem readStat_get (m : Store Str Int) (e : Sigma fun _ : Str => Int) (k : Str) :
    (readStat m e).get k = if k = e.1 then (readBack e.2).or (m.get k) else m.get k := by
  unfold readStat readBack
  split_ifs with hfits hk hk
  · rw [hk, Store.get_put_self]
    rfl
  · exact Store.get_put_ne _ _ hk
  · rfl
  · rfl

/-- The map after the file is read: the file's number, if it could be read, else what was there. -/
theorem readStats_get (k : Str) : ∀ (l : List (Sigma fun _ : Str => Int)), l.NodupKeys → ∀ m : Store Str Int,
    (l.foldl readStat m).get k = ((l.dlookup k).bind readBack).or (m.get k)
  | [], _, m => by simp
  | e :: l, hl, m => by
    obtain ⟨hnew, hl⟩ := List.nodupKeys_cons.mp hl
    rw [List.foldl_cons, readStats_get k l hl, readStat_get]
    by_cases hk : k = e.1
    · subst hk
      have hnone : l.dlookup e.1 = none := List.dlookup_eq_none.mpr hnew
      rw [hnone, if_pos rfl, List.dlookup_cons_eq]
      rfl
    · rw [if_neg hk, List.dlookup_cons_ne l e hk]

theorem formatted_get (m base : Store Str Int) (k : Str) :
    (m.entries.foldl readStat base).get k = ((m.get k).bind readBack).or (base.get k) :=
  readStats_get k m.entries m.nodupKeys base

theorem newStatMap_get (today k : Str) : ((newStatMap today).get k).getD 0 = 0 := by
  simp only [newStatMap, Store.get_put, Store.get_empty]
  split_ifs <;> rfl

theorem underscore_notMem_countKey : '_' ∉ CONST_STAT_FILE_COUNT_KEY := by decide

theorem dayKey_ne (date rest : Str) : date ++ '_' :: rest ≠ CONST_STAT_FILE_COUNT_KEY := by
  intro h
  apply underscore_notMem_countKey
  rw [← h]
  simp

theorem newStatMap_guard (today : Str) : (newStatMap today).get CONST_STAT_FILE_COUNT_KEY = some 0 := by
  have hcount : CONST_STAT_FILE_COUNT_KEY ≠ Server.countKey today := (dayKey_ne today _).symm
  have hsize : CONST_STAT_FILE_COUNT_KEY ≠ Server.totalSizeKey today := (dayKey_ne today _).symm
  have htotal : CONST_STAT_FILE_COUNT_KEY ≠ CONST_STAT_FILE_TOTAL_SIZE_KEY := by decide
  rw [newStatMap, Store.get_put_ne _ _ hsize, Store.get_put_ne _ _ hcount, Store.get_put_ne _ _ htotal,
    Store.get_put_self]

/-! ## The file keeps up -/

/-- The file spells the counters, and saving is not refused. -/
structure Kept (p : StatNode) : Prop where
  file : ∃ m, p.file = some m ∧ ∀ k, (m.get k).getD 0 = p.server.stat k
  guard : p.server.statMap.get CONST_STAT_FILE_COUNT_KEY = some 0

theorem Kept.congr {p q : StatNode} (h : Kept p) (hfile : q.file = p.file) (hstat : q.server.statMap = p.server.statMap) :
    Kept q := by
  obtain ⟨m, hm, hmk⟩ := h.file
  refine ⟨⟨m, hfile.trans hm, fun k => ?_⟩, by rw [hstat]; exact h.guard⟩
  rw [hmk k, Server.stat, Server.stat, hstat]

theorem saveStat_of_guard {p : StatNode} (h : p.server.statMap.get CONST_STAT_FILE_COUNT_KEY = some 0) :
    p.saveStat = { p with file := some p.server.statMap } := by
  simp [StatNode.saveStat, h]

theorem kept_saveStat {p : StatNode} (h : p.server.statMap.get CONST_STAT_FILE_COUNT_KEY = some 0) : Kept p.saveStat := by
  rw [saveStat_of_guard h]
  exact ⟨⟨p.server.statMap, rfl, fun _ => rfl⟩, h⟩

theorem guard_addCount {s : Server} (h : s.statMap.get CONST_STAT_FILE_COUNT_KEY = some 0) (date rest : Str) (n : Int) :
    (s.addCount (date ++ '_' :: rest) n).statMap.get CONST_STAT_FILE_COUNT_KEY = some 0 := by
  rw [Server.addCount, Store.get_put_ne _ _ (dayKey_ne date rest).symm]
  exact h

theorem statMap_of_not_counts {s : Server} {fi : FileInfo} {filename : Str} (h : countsEntry s fi filename = false) :
    (s.saveFileMd5Log E fi filename).statMap = s.statMap := by
  by_cases hmd5 : fi.md5 = []
  · rw [Server.saveFileMd5Log_nil E s hmd5]
  have hboth : ¬ (filename = CONST_FILE_Md5_FILE_NAME ∧ s.isExistFromLevelDB fi.md5 = false) ∧
      ¬ (filename = CONST_REMOME_Md5_FILE_NAME ∧ s.isExistFromLevelDB fi.md5 = true) := by
    simpa [countsEntry, hmd5, not_or] using h
  simp only [Server.saveFileMd5Log]
  split_ifs with h1 h2 h3 h4 h5
  · rfl
  · rfl
  · exact absurd ⟨h2, by simpa using h3⟩ hboth.1
  · exact absurd ⟨h4, h5⟩ hboth.2
  · rfl
  · rfl

theorem guard_saveFileMd5Log {s : Server} (h : s.statMap.get CONST_STAT_FILE_COUNT_KEY = some 0) (fi : FileInfo)
    (filename : Str) : (s.saveFileMd5Log E fi filename).statMap.get CONST_STAT_FILE_COUNT_KEY = some 0 := by
  have hadd : ∀ (day : Str) (n m : Int),
      ((s.addCount (Server.countKey day) n).addCount (Server.totalSizeKey day) m).statMap.get CONST_STAT_FILE_COUNT_KEY =
        some 0 := fun day n m => guard_addCount (guard_addCount h day _ n) day _ m
  simp only [Server.saveFileMd5Log]
  split_ifs
  · exact h
  · exact h
  · exact hadd _ _ _
  · exact hadd _ _ _
  · exact h
  · exact h

theorem kept_saveFileMd5Log {p : StatNode} (h : Kept p) (fi : FileInfo) (filename : Str) :
    Kept (p.saveFileMd5Log E fi filename) := by
  have hguard := guard_saveFileMd5Log (E := E) h.guard fi filename
  unfold StatNode.saveFileMd5Log
  dsimp only
  split_ifs with hcounts
  · exact kept_saveStat hguard
  · obtain ⟨m, hm, hstat⟩ := h.file
    refine ⟨⟨m, hm, fun k => ?_⟩, hguard⟩
    rw [hstat k, Server.stat, Server.stat, statMap_of_not_counts (by simpa using hcounts)]

theorem kept_repair {p : StatNode} (h : p.server.statMap.get CONST_STAT_FILE_COUNT_KEY = some 0) (date : Str) :
    Kept (p.repairStatByDate c date) := by
  refine kept_saveStat ?_
  have hcount : CONST_STAT_FILE_COUNT_KEY ≠ Server.countKey date := (dayKey_ne date _).symm
  have hsize : CONST_STAT_FILE_COUNT_KEY ≠ Server.totalSizeKey date := (dayKey_ne date _).symm
  simp only [Server.repairStatByDate]
  rw [Store.get_put_ne _ _ hsize, Store.get_put_ne _ _ hcount]
  exact h

/-- A restart with counters that are not too large: they stay, and so does the file. -/
theorem kept_restart {p : StatNode} (h : Kept p) (hsmall : ∀ k, (p.server.stat k).natAbs ≤ 2 ^ 53) (today : Str) :
    Kept (p.restart c today) ∧ Alike (p.restart c today).server p.server := by
  obtain ⟨m, hm, hstat⟩ := h.file
  have hget : ∀ k, (p.restart c today).server.statMap.get k = (m.get k).or ((newStatMap today).get k) := by
    intro k
    have hread : (m.get k).bind readBack = m.get k := by
      cases hk : m.get k with
      | none => rfl
      | some v =>
        have hv := hsmall k
        rw [← hstat k, hk] at hv
        exact readBack_of_le hv
    simp only [StatNode.restart, StatNode.formatStatInfo, hm]
    rw [formatted_get, hread]
  have hkeep : ∀ k, (p.restart c today).server.stat k = p.server.stat k := by
    intro k
    rw [← hstat k, Server.stat, hget k]
    cases m.get k with
    | none => exact newStatMap_get today k
    | some v => rfl
  have hfile : (p.restart c today).file = some m := by simp only [StatNode.restart, StatNode.formatStatInfo, hm]
  refine ⟨⟨⟨m, hfile, fun k => ?_⟩, ?_⟩, ?_, ?_, ?_, hkeep⟩
  · rw [hstat k, hkeep k]
  · have hzero : (m.get CONST_STAT_FILE_COUNT_KEY).getD 0 = 0 := by rw [hstat, Server.stat, h.guard]; rfl
    rw [hget]
    cases hk : m.get CONST_STAT_FILE_COUNT_KEY with
    | none => exact newStatMap_guard today
    | some v =>
      rw [hk] at hzero
      exact congrArg some hzero
  all_goals simp only [StatNode.restart, StatNode.formatStatInfo, hm, Server.restart]

/-! ## Runs -/

/-- The node after its first start on databases and a disk left as they are in `s`. -/
def StatNode.first (c : Config) (s : Server) (today : Str) : StatNode := StatNode.restart c ⟨s, none⟩ today

theorem kept_first (s : Server) (today : Str) : Kept (StatNode.first c s today) := kept_repair (newStatMap_guard today) today

theorem run_alike {p q : StatNode} {op : StatOp} (hop : op.isRestart = false) (hp : Kept p) (hpq : Alike p.server q.server) :
    Kept (op.run E c p) ∧ Alike (op.run E c p).server (op.run E c q).server := by
  have hsave : ∀ r : StatNode, r.saveStat.server = r.server := by
    intro r
    unfold StatNode.saveStat
    split
    · split_ifs <;> rfl
    · rfl
  cases op with
  | save fi filename =>
    refine ⟨kept_saveFileMd5Log hp fi filename, ?_⟩
    have hserver : ∀ r : StatNode, (r.saveFileMd5Log E fi filename).server = r.server.saveFileMd5Log E fi filename := by
      intro r
      unfold StatNode.saveFileMd5Log
      dsimp only
      split_ifs
      · exact hsave _
      · rfl
    simp only [StatOp.run, hserver]
    exact hpq.saveFileMd5Log fi filename
  | repair date =>
    refine ⟨kept_repair hp.guard date, ?_⟩
    simp only [StatOp.run, StatNode.repairStatByDate, hsave]
    exact hpq.repairStatByDate date
  | record key fi db =>
    refine ⟨hp.congr rfl ?_, hpq.saveFileInfo key fi db⟩
    cases db <;> rfl
  | drop key db =>
    refine ⟨hp.congr rfl ?_, hpq.removeKey key db⟩
    cases db <;> rfl
  | files d => exact ⟨hp.congr rfl rfl, hpq.ldb, hpq.logDB, rfl, hpq.stat⟩
  | restart today => cases hop

variable (E c)

def lasting (ops : List StatOp) : List StatOp := ops.filter fun op => !op.isRestart

theorem run_lasting : ∀ (ops : List StatOp) {p q : StatNode}, Kept p → Alike p.server q.server →
    (∀ pre, pre <+: ops → ∀ k, (((lasting pre).foldl (StatOp.run E c) q).server.stat k).natAbs ≤ 2 ^ 53) →
    Alike (ops.foldl (StatOp.run E c) p).server ((lasting ops).foldl (StatOp.run E c) q).server
  | [], _, _, _, hpq, _ => hpq
  | op :: ops, p, q, hp, hpq, hsmall => by
    have htail : ∀ {q' : StatNode}, (∀ pre, (lasting (op :: pre)).foldl (StatOp.run E c) q =
        (lasting pre).foldl (StatOp.run E c) q') →
        ∀ pre, pre <+: ops → ∀ k, (((lasting pre).foldl (StatOp.run E c) q').server.stat k).natAbs ≤ 2 ^ 53 := by
      intro q' hq' pre hpre k
      rw [← hq']
      exact hsmall (op :: pre) (List.cons_prefix_cons.mpr ⟨rfl, hpre⟩) k
    by_cases hop : op.isRestart = true
    · -- a restart: the node without it does nothing
      have hskip : ∀ pre, lasting (op :: pre) = lasting pre := fun pre => by simp [lasting, hop]
      cases op with
      | restart today =>
        obtain ⟨hkept, hsame⟩ := kept_restart (c := c) hp (fun k => by
          rw [hpq.stat k]
          exact hsmall [] (List.nil_prefix) k) today
        rw [List.foldl_cons, hskip]
        refine run_lasting ops hkept ⟨hsame.ldb.trans hpq.ldb, hsame.logDB.trans hpq.logDB, hsame.disk.trans hpq.disk,
          fun k => (hsame.stat k).trans (hpq.stat k)⟩ (htail fun pre => by rw [hskip])
      | save | repair | record | drop | files => cases hop
    · have hkeep : ∀ pre, lasting (op :: pre) = op :: lasting pre := fun pre => by simp [lasting, hop]
      obtain ⟨hkept, hsame⟩ := run_alike (by simpa using hop) hp hpq
      rw [List.foldl_cons, hkeep, List.foldl_cons]
      exact run_lasting ops hkept hsame (htail fun pre => by rw [hkeep, List.foldl_cons])

/-- Restarts anywhere in a run change nothing, while no counter of the run without them grows
    past 2 to the 53: databases, disk and counters end as if the node had never stopped. -/
theorem restarts_change_nothing {s : Server} {today : Str} {ops : List StatOp}
    (hsmall : ∀ pre, pre <+: ops → ∀ k,
      (((lasting pre).foldl (StatOp.run E c) (.first c s today)).server.stat k).natAbs ≤ 2 ^ 53) :
    Alike (ops.foldl (StatOp.run E c) (.first c s today)).server
      ((lasting ops).foldl (StatOp.run E c) (.first c s today)).server :=
  run_lasting E c ops (kept_first s today) (.refl _) hsmall

section
variable {c}

/-- A restart right after a save reads every counter back. -/
theorem restart_get {p : StatNode} (hguard : p.server.statMap.get CONST_STAT_FILE_COUNT_KEY = some 0) (today k : Str) :
    (p.saveStat.restart c today).server.statMap.get k =
      ((p.server.statMap.get k).bind readBack).or ((newStatMap today).get k) := by
  rw [saveStat_of_guard hguard]
  exact formatted_get _ _ k

theorem restart_stat {p : StatNode} (hguard : p.server.statMap.get CONST_STAT_FILE_COUNT_KEY = some 0) (today k : Str) :
    (p.saveStat.restart c today).server.stat k = (readBack (p.server.stat k)).getD 0 := by
  have hzero := newStatMap_get today k
  rw [Server.stat, restart_get hguard, Server.stat]
  cases p.server.statMap.get k with
  | none => exact hzero
  | some v =>
    rw [Option.bind_some, Option.getD_some]
    cases readBack v with
    | none => exact hzero
    | some w => rfl

theorem restart_guard {p : StatNode} (hguard : p.server.statMap.get CONST_STAT_FILE_COUNT_KEY = some 0) (today : Str) :
    (p.saveStat.restart c today).server.statMap.get CONST_STAT_FILE_COUNT_KEY = some 0 := by
  have hread : readBack 0 = some 0 := by decide
  rw [restart_get hguard, hguard, Option.bind_some, hread]
  rfl

theorem readBack_readBack (v : Int) : (readBack ((readBack v).getD 0)).getD 0 = (readBack v).getD 0 := by
  by_cases hfits : -2 ^ 63 ≤ Go.float64 v ∧ Go.float64 v < 2 ^ 63
  · have hread : readBack v = some (Go.float64 v) := if_pos hfits
    have hagain : readBack (Go.float64 v) = some (Go.float64 v) := by
      rw [readBack, Go.float64_float64, if_pos hfits]
    rw [hread, Option.getD_some, hagain, Option.getD_some]
  · have hread : readBack v = none := if_neg hfits
    rw [hread]
    decide

end

/-- However large the counters, only the first of a row of restarts changes one. -/
theorem restarts_settle {p : StatNode} (hguard : p.server.statMap.get CONST_STAT_FILE_COUNT_KEY = some 0) (today : Str)
    (days : List Str) (k : Str) :
    (days.foldl (fun q day => q.saveStat.restart c day) (p.saveStat.restart c today)).server.stat k =
      (p.saveStat.restart c today).server.stat k := by
  induction days generalizing p today with
  | nil => rfl
  | cons day days ih =>
    have hagain := restart_guard (c := c) hguard today
    rw [List.foldl_cons, ih hagain day, restart_stat hagain, restart_stat hguard, readBack_readBack]

/-- A restart right after a save keeps every counter exactly if every counter is a float64. -/
theorem restart_keeps_iff {p : StatNode} (hguard : p.server.statMap.get CONST_STAT_FILE_COUNT_KEY = some 0)
    (hint64 : ∀ k, -2 ^ 63 ≤ p.server.stat k ∧ p.server.stat k < 2 ^ 63) (today : Str) :
    (∀ k, (p.saveStat.restart c today).server.stat k = p.server.stat k) ↔
      ∀ k, Go.Digits53 (p.server.stat k).natAbs := by
  refine forall_congr' fun k => ?_
  rw [restart_stat hguard, ← Go.float64_eq_iff, readBack]
  have hv := hint64 k
  generalize p.server.stat k = v at hv ⊢
  split_ifs with hfits
  · rfl
  · constructor
    · intro h
      obtain rfl : v = 0 := h.symm
      exact absurd (by decide) hfits
    · intro h
      exact absurd (by rw [h]; exact hv) hfits

/-! ## Fixed inputs -/

theorem stat_of_entries {P : Int → Prop} {s : Server} (h0 : P 0) (h : ∀ e ∈ s.statMap.entries, P e.2) (k : Str) :
    P (s.stat k) := by
  unfold Server.stat
  cases hk : s.statMap.get k with
  | none => exact h0
  | some v => exact h ⟨k, v⟩ (Store.mem_entries.mpr hk)

def countedRecord : FileInfo := { name := "a.txt".toList, path := "files/a".toList, md5 := "m".toList, size := 9 }

def restartedOps : List StatOp :=
  [.save countedRecord CONST_FILE_Md5_FILE_NAME, .restart "19700102".toList,
    .save { countedRecord with md5 := "n".toList } CONST_FILE_Md5_FILE_NAME, .restart "19700103".toList]

theorem restartedOps_small : ∀ pre ∈ restartedOps.inits,
    ∀ e ∈ ((lasting pre).foldl (StatOp.run Env.plain {})
      (.first {} (.fresh { cwd := [], nodes := ∅ }) "19700101".toList)).server.statMap.entries,
      e.2.natAbs ≤ 2 ^ 53 := by
  decide +kernel

/-- Two files counted with a restart after each. -/
theorem two_restarts_change_nothing :
    (restartedOps.foldl (StatOp.run Env.plain {}) (.first {} (.fresh { cwd := [], nodes := ∅ }) "19700101".toList)).server.stat
        (Server.countKey "19700101".toList) =
      ((lasting restartedOps).foldl (StatOp.run Env.plain {})
        (.first {} (.fresh { cwd := [], nodes := ∅ }) "19700101".toList)).server.stat (Server.countKey "19700101".toList) :=
  (restarts_change_nothing Env.plain {} fun pre hpre k =>
    stat_of_entries (P := fun v => v.natAbs ≤ 2 ^ 53) (by decide)
      (restartedOps_small pre (List.mem_inits pre _ |>.mpr hpre)) k).stat _

def fullNode : StatNode :=
  { server := { disk := { cwd := [], nodes := ∅ }
                statMap := (newStatMap "19700101".toList).put (Server.totalSizeKey "19700101".toList) (2 ^ 53 + 1) } }

/-- The byte is gone after a restart. -/
theorem a_restart_loses_a_byte :
    ¬ ∀ k, (fullNode.saveStat.restart {} "19700102".toList).server.stat k = fullNode.server.stat k := by
  have hstat : fullNode.server.stat (Server.totalSizeKey "19700101".toList) = 2 ^ 53 + 1 := by decide +kernel
  rw [restart_keeps_iff {} (by decide +kernel) (stat_of_entries (P := fun v => -2 ^ 63 ≤ v ∧ v < 2 ^ 63) (by decide)
    (by decide +kernel))]
  intro h
  have hdigits := h (Server.totalSizeKey "19700101".toList)
  rw [hstat, ← Go.roundEven_eq_iff] at hdigits
  exact absurd hdigits (by decide)

end GoFastdfs
