/-
  GoFastdfs.Metadata — the two leveldb databases (`fileserver.go`,
  `http_info.go`).

  `ldb` maps a digest, or the digest of a path, to a record; `logDB` maps
  `day_log_digest` to a record, one log per day and kind. Every record written to
  `ldb` is written to its day's `files.md5` log too, and anti-entropy sees only the
  log. `CleanLogLevelDBByDate` collects the log's values where it means its keys, so
  it deletes keys that are JSON texts, of which there are none.

  Proved: in every state reached by the operations on either database, a record kept
  under its own digest is in the log of its day (`recorded_is_logged`).
-/

import GoFastdfs.RecordJson
import Mathlib.Logic.Relation

namespace GoFastdfs

open Go (Str)

/-! ## The databases -/

inductive DB where
  | ldb
  | logDB
  deriving DecidableEq, Repr

def Env.day (E : Env) (t : Int) : Str := Go.day E.zone t

def logKey (logDate filename md5 : Str) : Str := logDate ++ '_' :: (filename ++ '_' :: md5)

def keyPrefix (date filename : Str) : Str := date ++ '_' :: (filename ++ ['_'])

variable (E : Env) (c : Config)

/-- The log key under which a record is mirrored. -/
def fileKey (fi : FileInfo) : Str := logKey (E.day fi.timeStamp) CONST_FILE_Md5_FILE_NAME fi.md5

namespace Server

def isExistFromLevelDB (s : Server) (key : Str) : Bool := s.ldb.has key

def getFileInfoFromLevelDB (s : Server) (key : Str) : Option FileInfo :=
  match s.ldb.get key with
  | some (.record fi) => some fi
  | _ => none

def removeKeyFromLevelDB (s : Server) (key : Str) : DB → Server
  | .ldb => { s with ldb := s.ldb.del key }
  | .logDB => { s with logDB := s.logDB.del key }

def saveFileInfoToLevelDB (s : Server) (key : Str) (fi : FileInfo) : DB → Server
  | .ldb => { s with ldb := s.ldb.put key (.record fi.persist), logDB := s.logDB.put (fileKey E fi) fi.persist }
  | .logDB => { s with logDB := s.logDB.put key fi.persist }

def addCount (s : Server) (key : Str) (n : Int) : Server :=
  { s with statMap := s.statMap.put key ((s.statMap.get key).getD 0 + n) }

def countKey (date : Str) : Str := date ++ '_' :: CONST_STAT_FILE_COUNT_KEY

def totalSizeKey (date : Str) : Str := date ++ '_' :: CONST_STAT_FILE_TOTAL_SIZE_KEY

def saveFileMd5Log (s : Server) (fi : FileInfo) (filename : Str) : Server :=
  if fi.md5 = [] ∨ filename = [] then s else
  let logDate := E.day fi.timeStamp
  let key := logKey logDate filename fi.md5
  if filename = CONST_FILE_Md5_FILE_NAME then
    let s := if s.isExistFromLevelDB fi.md5 then s
      else (s.addCount (countKey logDate) 1).addCount (totalSizeKey logDate) fi.size
    let s := s.saveFileInfoToLevelDB E key fi .logDB
    let s := s.saveFileInfoToLevelDB E fi.md5 fi .ldb
    s.saveFileInfoToLevelDB E (E.md5 fi.fullpath) fi .ldb
  else if filename = CONST_REMOME_Md5_FILE_NAME then
    let s := if s.isExistFromLevelDB fi.md5 then
        (s.addCount (countKey logDate) (-1)).addCount (totalSizeKey logDate) (-fi.size)
      else s
    let s := s.removeKeyFromLevelDB key .logDB
    let s := s.removeKeyFromLevelDB fi.md5 .ldb
    let s := s.removeKeyFromLevelDB (E.md5 fi.fullpath) .ldb
    s.removeKeyFromLevelDB (logKey logDate CONST_FILE_Md5_FILE_NAME fi.md5) .logDB
  else s.saveFileInfoToLevelDB E key fi .logDB

/-- The keys of one log are split at `_` and the third piece taken for the digest. -/
def getMd5sByDate (s : Server) (date filename : Str) : List Str :=
  (s.logDB.scan (Go.hasPrefix · (keyPrefix date filename))).filterMap fun x => (x.1.splitOn '_')[2]?

def loadFileInfoByDate (s : Server) (date filename : Str) : List FileInfo :=
  (s.logDB.scan (Go.hasPrefix · (keyPrefix date filename))).map (·.2)

/-- `CleanLogLevelDBByDate`, with the texts in which the rows are stored. -/
def cleanLogLevelDBByDate (s : Server) (texts : RowTexts) (date filename : Str) : Server :=
  (s.logDB.scan (Go.hasPrefix · (keyPrefix date filename))).foldl
    (fun s x => s.removeKeyFromLevelDB (texts.text x.1 x.2) .logDB) s

def fileInfoOfPath (fpath : Str) (n : Node) : FileInfo :=
  { path := Go.pathDir fpath, name := Go.pathBase fpath, md5 := E.md5 fpath, peers := [c.host], offSet := -1
    size := n.size
    timeStamp := n.modTime 0 }

/-- `CheckFileExist`: the record sent back, empty if there is none; the record of a
    normal file that is gone from the disk is dropped on the way. -/
def checkFileExist (s : Server) (md5sum fpath : Str) : FileInfo × Server :=
  match s.getFileInfoFromLevelDB md5sum with
  | some fi =>
    if fi.offSet ≠ -1 then (fi, s)
    else if s.disk.fileExists (getFilePathByInfo c fi) then (fi, s)
    else ({}, s.removeKeyFromLevelDB md5sum .ldb)
  | none =>
    if fpath = [] then ({}, s) else
    match s.disk.stat fpath with
    | some n => (fileInfoOfPath E c fpath n, s)
    | none => ({}, s)

/-- The loop of `CheckFilesExist`; a missing file's record is looked for under the whole
    list `md5sum` when it is dropped. -/
def checkFilesExistLoop (md5sum : Str) : Server → List Str → List FileInfo × Server
  | s, [] => ([], s)
  | s, m :: ms =>
    match s.getFileInfoFromLevelDB m with
    | some fi =>
      if fi.offSet ≠ -1 ∨ s.disk.fileExists (getFilePathByInfo c fi) then
        let r := checkFilesExistLoop md5sum s ms
        (fi :: r.1, r.2)
      else checkFilesExistLoop md5sum (s.removeKeyFromLevelDB md5sum .ldb) ms
    | none => checkFilesExistLoop md5sum s ms

def checkFilesExist (s : Server) (md5sum : Str) : List FileInfo × Server :=
  checkFilesExistLoop c md5sum s (md5sum.splitOn ',')

/-! ## What a log entry does -/

theorem logNames_ne : CONST_REMOME_Md5_FILE_NAME ≠ CONST_FILE_Md5_FILE_NAME ∧ CONST_FILE_Md5_FILE_NAME ≠ [] ∧
    CONST_REMOME_Md5_FILE_NAME ≠ [] := by
  refine ⟨?_, ?_, ?_⟩ <;> decide

@[simp] theorem saveFileMd5Log_disk (s : Server) (fi : FileInfo) (n : Str) : (s.saveFileMd5Log E fi n).disk = s.disk := by
  simp only [saveFileMd5Log]
  split_ifs <;> rfl

@[simp] theorem saveFileMd5Log_queue (s : Server) (fi : FileInfo) (n : Str) :
    (s.saveFileMd5Log E fi n).queueFileLog = s.queueFileLog := by
  simp only [saveFileMd5Log]
  split_ifs <;> rfl

theorem saveFileMd5Log_nil (s : Server) {fi : FileInfo} (h : fi.md5 = []) (n : Str) : s.saveFileMd5Log E fi n = s := by
  simp only [saveFileMd5Log, h, true_or, if_true]

/-- A record is kept under its digest and under the digest of its path. -/
theorem saveFileMd5Log_files_ldb (s : Server) {fi : FileInfo} (h : fi.md5 ≠ []) :
    (s.saveFileMd5Log E fi CONST_FILE_Md5_FILE_NAME).ldb =
      (s.ldb.put fi.md5 (.record fi.persist)).put (E.md5 fi.fullpath) (.record fi.persist) := by
  simp only [saveFileMd5Log, h, logNames_ne.2.1, or_self, if_false, if_true]
  split_ifs <;> rfl

theorem saveFileMd5Log_removes_ldb (s : Server) {fi : FileInfo} (h : fi.md5 ≠ []) :
    (s.saveFileMd5Log E fi CONST_REMOME_Md5_FILE_NAME).ldb = (s.ldb.del fi.md5).del (E.md5 fi.fullpath) := by
  simp only [saveFileMd5Log, h, logNames_ne.2.2, or_self, if_false, if_neg logNames_ne.1, if_true]
  split_ifs <;> rfl

theorem saveFileMd5Log_files_logDB (s : Server) {fi : FileInfo} (h : fi.md5 ≠ []) (k : Str) :
    (s.saveFileMd5Log E fi CONST_FILE_Md5_FILE_NAME).logDB.get k =
      if k = fileKey E fi then some fi.persist else s.logDB.get k := by
  have hkey : logKey (E.day fi.timeStamp) CONST_FILE_Md5_FILE_NAME fi.md5 = fileKey E fi := rfl
  have hput : ∀ d : Store Str FileInfo, (((d.put (fileKey E fi) fi.persist).put (fileKey E fi) fi.persist).put
      (fileKey E fi) fi.persist).get k = if k = fileKey E fi then some fi.persist else d.get k := by
    intro d
    simp only [Store.get_put]
    split_ifs <;> rfl
  simp only [saveFileMd5Log, h, logNames_ne.2.1, or_self, if_false, if_true, hkey]
  by_cases hh : s.isExistFromLevelDB fi.md5 = true
  · rw [if_pos hh]
    exact hput _
  · rw [if_neg hh]
    exact hput _

theorem saveFileMd5Log_removes_logDB (s : Server) {fi : FileInfo} (h : fi.md5 ≠ []) {k : Str} {v : FileInfo}
    (hk : (s.saveFileMd5Log E fi CONST_REMOME_Md5_FILE_NAME).logDB.get k = some v) :
    k ≠ fileKey E fi ∧ s.logDB.get k = some v := by
  have hdel : ∀ (d : Store Str FileInfo) (k' : Str), ((d.del k').del (fileKey E fi)).get k = some v →
      k ≠ fileKey E fi ∧ d.get k = some v := by
    intro d k' h
    obtain ⟨hne, h⟩ := Store.get_del_some h
    exact ⟨hne, (Store.get_del_some h).2⟩
  simp only [saveFileMd5Log, h, logNames_ne.2.2, or_self, if_false, if_neg logNames_ne.1, if_true] at hk
  split_ifs at hk <;> exact hdel _ _ hk

theorem saveFileMd5Log_other_ldb (s : Server) (fi : FileInfo) {n : Str} (hf : n ≠ CONST_FILE_Md5_FILE_NAME)
    (hr : n ≠ CONST_REMOME_Md5_FILE_NAME) : (s.saveFileMd5Log E fi n).ldb = s.ldb := by
  simp only [saveFileMd5Log, if_neg hf, if_neg hr]
  split_ifs <;> rfl

/-- A record after a log entry is applied: the entry's own, or one that was there and is not
    under the digest of a deletion. -/
theorem saveFileMd5Log_record {s : Server} {fi v : FileInfo} {n k : Str}
    (h : (s.saveFileMd5Log E fi n).ldb.get k = some (.record v)) :
    (n = CONST_FILE_Md5_FILE_NAME ∧ fi.md5 ≠ [] ∧ (k = fi.md5 ∨ k = E.md5 fi.fullpath) ∧ v = fi.persist) ∨
      (s.ldb.get k = some (.record v) ∧ (n = CONST_REMOME_Md5_FILE_NAME → fi.md5 ≠ [] → k ≠ fi.md5)) := by
  by_cases hmd5 : fi.md5 = []
  · rw [saveFileMd5Log_nil E s hmd5] at h
    exact Or.inr ⟨h, fun _ hne => absurd hmd5 hne⟩
  by_cases hfiles : n = CONST_FILE_Md5_FILE_NAME
  · rw [hfiles, saveFileMd5Log_files_ldb E s hmd5] at h
    rcases Store.get_put_put_some h with ⟨hk, hv⟩ | hold
    · cases hv
      exact Or.inl ⟨hfiles, hmd5, hk, rfl⟩
    · exact Or.inr ⟨hold, fun hr => absurd (hr.symm.trans hfiles) logNames_ne.1⟩
  by_cases hremoves : n = CONST_REMOME_Md5_FILE_NAME
  · rw [hremoves, saveFileMd5Log_removes_ldb E s hmd5] at h
    obtain ⟨hne, hold⟩ := Store.get_del_some (Store.get_del_some h).2
    exact Or.inr ⟨hold, fun _ _ => hne⟩
  · rw [saveFileMd5Log_other_ldb E s fi hfiles hremoves] at h
    exact Or.inr ⟨h, fun hr => absurd hr hremoves⟩

/-! ## Keys -/

theorem underscore_notMem_day (t : Int) : '_' ∉ E.day t := Go.notMem_day E.zone (by decide) (by decide) t

theorem brace_notMem_day (t : Int) : '\x7b' ∉ E.day t := Go.notMem_day E.zone (by decide) (by decide) t

theorem logKey_inj {d d' n n' m m' : Str} (hd : '_' ∉ d) (hd' : '_' ∉ d') (hn : '_' ∉ n) (hn' : '_' ∉ n')
    (h : logKey d n m = logKey d' n' m') : d = d' ∧ n = n' ∧ m = m' := by
  obtain ⟨h1, h2⟩ := Go.append_cons_inj hd hd' h
  obtain ⟨h3, h4⟩ := Go.append_cons_inj hn hn' h2
  exact ⟨h1, h3, h4⟩

theorem logKey_ne_text {d n m : Str} (hd : '\x7b' ∉ d) (texts : RowTexts) (key : Str) (v : FileInfo) :
    logKey d n m ≠ texts.text key v := by
  intro h
  have hhead := texts.head key v
  rw [← h] at hhead
  cases d with
  | nil => simp [logKey] at hhead
  | cons x d =>
    obtain rfl : x = '\x7b' := Option.some.inj hhead
    exact hd List.mem_cons_self

/-- Cleaning a log leaves what is under a key that is no JSON text. -/
theorem cleanLog_get (s : Server) (texts : RowTexts) (date filename : Str) {k : Str} (hk : ∀ key v, k ≠ texts.text key v) :
    (s.cleanLogLevelDBByDate texts date filename).logDB.get k = s.logDB.get k := by
  unfold cleanLogLevelDBByDate
  generalize s.logDB.scan _ = l
  induction l generalizing s with
  | nil => rfl
  | cons x l ih =>
    rw [List.foldl_cons, ih]
    exact Store.get_del_ne _ (hk x.1 x.2)

theorem hasPrefix_logKey (d n m : Str) : Go.hasPrefix (logKey d n m) (keyPrefix d n) = true := by
  have : logKey d n m = keyPrefix d n ++ m := by simp [logKey, keyPrefix]
  rw [this]
  exact Go.hasPrefix_append _ _

theorem hasPrefix_keyPrefix {d d' n n' m : Str} (hd : '_' ∉ d) (hd' : '_' ∉ d') (hn : '_' ∉ n) (hn' : '_' ∉ n')
    (h : Go.hasPrefix (logKey d n m) (keyPrefix d' n') = true) : d = d' ∧ n = n' := by
  obtain ⟨rest, hr⟩ := Go.hasPrefix_iff.mp h
  have hkey : keyPrefix d' n' ++ rest = logKey d' n' rest := by simp [logKey, keyPrefix]
  obtain ⟨h1, h2, _⟩ := logKey_inj hd hd' hn hn' (hr.symm.trans hkey)
  exact ⟨h1, h2⟩

def logNames : List Str :=
  [CONST_FILE_Md5_FILE_NAME, CONST_REMOME_Md5_FILE_NAME, CONST_Md5_QUEUE_FILE_NAME, CONST_Md5_ERROR_FILE_NAME]

theorem underscore_notMem_logName {n : Str} (h : n ∈ logNames) : '_' ∉ n := by
  revert n; decide

theorem fileKey_ne_logKey {fi : FileInfo} {t : Int} {n m : Str} (hn : n ∈ logNames) (h : n ≠ CONST_FILE_Md5_FILE_NAME) :
    fileKey E fi ≠ logKey (E.day t) n m := by
  intro e
  have := logKey_inj (underscore_notMem_day E _) (underscore_notMem_day E _)
    (underscore_notMem_logName (by decide)) (underscore_notMem_logName hn) e
  exact h this.2.1.symm

theorem fileKey_inj {v w : FileInfo} (h : fileKey E v = fileKey E w) :
    E.day v.timeStamp = E.day w.timeStamp ∧ v.md5 = w.md5 := by
  have := logKey_inj (underscore_notMem_day E _) (underscore_notMem_day E _)
    (underscore_notMem_logName (by decide)) (underscore_notMem_logName (by decide)) h
  exact ⟨this.1, this.2.2⟩

/-! ## The mirror -/

/-- A record kept under its own digest is in the `files.md5` log of its day. -/
def Mirror (s : Server) : Prop :=
  ∀ m v, s.ldb.get m = some (.record v) → v.md5 = m → s.logDB.get (fileKey E v) = some v

theorem getFileInfo_eq_some {s : Server} {m : Str} {v : FileInfo} :
    s.getFileInfoFromLevelDB m = some v ↔ s.ldb.get m = some (.record v) := by
  unfold getFileInfoFromLevelDB
  constructor
  · intro h
    split at h
    · cases h; assumption
    · cases h
  · intro h; rw [h]

theorem mirror_removeLdb {s : Server} (h : Mirror E s) (key : Str) : Mirror E (s.removeKeyFromLevelDB key .ldb) := by
  intro m v hm hmd
  exact h m v (Store.get_del_some hm).2 hmd

theorem mirror_of_logDB {s s' : Server} (h : Mirror E s) (hl : s'.ldb = s.ldb)
    (hk : ∀ m v, s.ldb.get m = some (.record v) → v.md5 = m → s'.logDB.get (fileKey E v) = s.logDB.get (fileKey E v)) :
    Mirror E s' := by
  intro m v hm hmd
  rw [hl] at hm
  rw [hk m v hm hmd]
  exact h m v hm hmd

theorem mirror_removeLog {s : Server} (h : Mirror E s) {key : Str}
    (hk : ∀ m v, s.ldb.get m = some (.record v) → v.md5 = m → fileKey E v ≠ key) :
    Mirror E (s.removeKeyFromLevelDB key .logDB) :=
  mirror_of_logDB E h rfl fun m v hm hmd => Store.get_del_ne _ (hk m v hm hmd)

theorem mirror_saveLog {s : Server} (h : Mirror E s) {key : Str} (fi : FileInfo) (hk : ∀ v, fileKey E v ≠ key) :
    Mirror E (s.saveFileInfoToLevelDB E key fi .logDB) :=
  mirror_of_logDB E h rfl fun _ v _ _ => Store.get_put_ne _ _ (hk v)

/-- Saving a record under its digest, or anywhere once it is under its digest, keeps the
    mirror: the log entry the save replaces belongs to the same digest. -/
theorem mirror_saveLdb {s : Server} (h : Mirror E s) (key : Str) (fi : FileInfo)
    (hk : key = fi.md5 ∨ s.ldb.get fi.md5 = some (.record fi.persist)) :
    Mirror E (s.saveFileInfoToLevelDB E key fi .ldb) := by
  intro m v hm hmd
  simp only [saveFileInfoToLevelDB, Store.get_put] at hm ⊢
  by_cases hkey : fileKey E v = fileKey E fi
  · rw [if_pos hkey]
    have hv : v.md5 = fi.md5 := (fileKey_inj E hkey).2
    split at hm
    · cases hm; rfl
    · rename_i hne
      rcases hk with rfl | hk
      · exact absurd (hmd.symm.trans hv) hne
      · rw [← hmd, hv, hk] at hm
        cases hm; rfl
  · rw [if_neg hkey]
    split at hm
    · cases hm; exact absurd rfl hkey
    · exact h m v hm hmd

theorem mirror_addCount {s : Server} (h : Mirror E s) (key : Str) (n : Int) : Mirror E (s.addCount key n) := h

theorem mirror_saveFileMd5Log {s : Server} (h : Mirror E s) (fi : FileInfo) {filename : Str} (hn : filename ∈ logNames) :
    Mirror E (s.saveFileMd5Log E fi filename) := by
  simp only [saveFileMd5Log]
  split
  · exact h
  split
  · rename_i hf
    subst hf
    -- the log entry is written first, before its record is under the digest
    have hkey : logKey (E.day fi.timeStamp) CONST_FILE_Md5_FILE_NAME fi.md5 = fileKey E fi := rfl
    rw [hkey]
    have hcount : ∀ t : Server, Mirror E t →
        Mirror E ((t.saveFileInfoToLevelDB E (fileKey E fi) fi .logDB).saveFileInfoToLevelDB E fi.md5 fi .ldb) := by
      intro t ht
      have := mirror_saveLdb E ht fi.md5 fi (Or.inl rfl)
      intro m v hm hmd
      have hm' := this m v hm hmd
      simp only [saveFileInfoToLevelDB, Store.get_put] at hm' ⊢
      split at hm'
      · rename_i e; rw [if_pos e]; exact hm'
      · rename_i e; rw [if_neg e, if_neg e]; exact hm'
    refine mirror_saveLdb E (hcount _ ?_) _ fi (Or.inr (Store.get_put_self _ _ _))
    split
    · exact h
    · exact mirror_addCount E (mirror_addCount E h _ _) _ _
  split
  · rename_i hf hr
    -- the digest leaves `ldb` before its mirror leaves the log
    refine mirror_removeLog E (mirror_removeLdb E (mirror_removeLdb E (mirror_removeLog E ?_ ?_) _) _) ?_
    · split
      · exact mirror_addCount E (mirror_addCount E h _ _) _ _
      · exact h
    · intro _ v _ _
      exact fileKey_ne_logKey E hn hf
    · intro m v hm hmd e
      have := fileKey_inj E (w := fi) e
      have hne := (Store.get_del_some (Store.get_del_some hm).2).1
      exact hne (hmd.symm.trans this.2)
  · rename_i hf _
    exact mirror_saveLog E h fi fun v => fileKey_ne_logKey E hn hf

theorem mirror_cleanLog {s : Server} (h : Mirror E s) (texts : RowTexts) (date filename : Str) :
    Mirror E (s.cleanLogLevelDBByDate texts date filename) := by
  unfold cleanLogLevelDBByDate
  generalize s.logDB.scan _ = l
  induction l generalizing s with
  | nil => exact h
  | cons x l ih =>
    exact ih (mirror_removeLog E h fun _ v _ _ => logKey_ne_text (brace_notMem_day E _) texts x.1 x.2)

theorem mirror_checkFileExist {s : Server} (h : Mirror E s) (md5sum fpath : Str) :
    Mirror E (s.checkFileExist E c md5sum fpath).2 := by
  unfold checkFileExist
  split
  · split
    · exact h
    · split
      · exact h
      · exact mirror_removeLdb E h md5sum
  · split
    · exact h
    · split <;> exact h

theorem mirror_checkFilesExistLoop (md5sum : Str) : ∀ (ms : List Str) (s : Server), Mirror E s →
    Mirror E (checkFilesExistLoop c md5sum s ms).2
  | [], _, h => h
  | m :: ms, s, h => by
    unfold checkFilesExistLoop
    split
    · split
      · exact mirror_checkFilesExistLoop md5sum ms s h
      · exact mirror_checkFilesExistLoop md5sum ms _ (mirror_removeLdb E h md5sum)
    · exact mirror_checkFilesExistLoop md5sum ms s h

/-! ## Runs -/

/-- The operations on the databases, each with any arguments, and files coming and
    going on the disk. -/
inductive MetaStep : Server → Server → Prop
  | saveFileMd5Log (s : Server) (fi : FileInfo) (filename : Str) : filename ∈ logNames →
      MetaStep s (s.saveFileMd5Log E fi filename)
  | saveFileInfo (s : Server) (fi : FileInfo) : MetaStep s (s.saveFileInfoToLevelDB E fi.md5 fi .ldb)
  | checkFileExist (s : Server) (md5sum fpath : Str) : MetaStep s (s.checkFileExist E c md5sum fpath).2
  | checkFilesExist (s : Server) (md5sum : Str) : MetaStep s (s.checkFilesExist c md5sum).2
  | cleanLog (s : Server) (texts : RowTexts) (date filename : Str) :
      filename ∈ [CONST_Md5_QUEUE_FILE_NAME, CONST_Md5_ERROR_FILE_NAME, CONST_REMOME_Md5_FILE_NAME] →
      MetaStep s (s.cleanLogLevelDBByDate texts date filename)
  | disk (s : Server) (d : Disk) : MetaStep s { s with disk := d }

theorem mirror_step {s s' : Server} (hs : MetaStep E c s s') (h : Mirror E s) : Mirror E s' := by
  cases hs with
  | saveFileMd5Log fi filename hn => exact mirror_saveFileMd5Log E h fi hn
  | saveFileInfo fi => exact mirror_saveLdb E h fi.md5 fi (Or.inl rfl)
  | checkFileExist md5sum fpath => exact mirror_checkFileExist E c h md5sum fpath
  | checkFilesExist md5sum => exact mirror_checkFilesExistLoop E c md5sum _ s h
  | cleanLog texts date filename _ => exact mirror_cleanLog E h texts date filename
  | disk d => exact h

def fresh (d : Disk) : Server := { disk := d }

theorem mirror_run {d : Disk} {s : Server} (h : Relation.ReflTransGen (MetaStep E c) (fresh d) s) : Mirror E s := by
  induction h with
  | refl => intro m v hm _; cases hm
  | tail _ hs ih => exact mirror_step E c hs ih

theorem mem_loadFileInfoByDate {s : Server} {d n m : Str} {v : FileInfo} (h : s.logDB.get (logKey d n m) = some v) :
    v ∈ s.loadFileInfoByDate d n :=
  List.mem_map.mpr ⟨(logKey d n m, v), Store.mem_scan.mpr ⟨h, hasPrefix_logKey d n m⟩, rfl⟩

theorem splitOn_logKey {d n m : Str} (hd : '_' ∉ d) (hn : '_' ∉ n) :
    (logKey d n m).splitOn '_' = d :: n :: m.splitOn '_' := by
  rw [logKey, List.splitOn_append_cons_self_of_not_mem hd, List.splitOn_append_cons_self_of_not_mem hn]

theorem mem_getMd5sByDate {s : Server} {d n m : Str} {v : FileInfo} (hd : '_' ∉ d) (hn : '_' ∉ n) (hm : '_' ∉ m)
    (h : s.logDB.get (logKey d n m) = some v) : m ∈ s.getMd5sByDate d n := by
  refine List.mem_filterMap.mpr ⟨(logKey d n m, v), Store.mem_scan.mpr ⟨h, hasPrefix_logKey d n m⟩, ?_⟩
  rw [splitOn_logKey hd hn, List.splitOn_eq_singleton hm]
  rfl

/-- Every record kept under its own digest is visible to anti-entropy: its day's log
    holds the same record, and the day's digests include its digest. -/
theorem recorded_is_logged {d : Disk} {s : Server} (h : Relation.ReflTransGen (MetaStep E c) (fresh d) s)
    {m : Str} {v : FileInfo} (hm : s.getFileInfoFromLevelDB m = some v) (hmd : v.md5 = m) :
    s.logDB.get (logKey (E.day v.timeStamp) CONST_FILE_Md5_FILE_NAME m) = some v ∧
      v ∈ s.loadFileInfoByDate (E.day v.timeStamp) CONST_FILE_Md5_FILE_NAME ∧
      ('_' ∉ m → m ∈ s.getMd5sByDate (E.day v.timeStamp) CONST_FILE_Md5_FILE_NAME) := by
  have hlog := mirror_run E c h m v (getFileInfo_eq_some.mp hm) hmd
  rw [fileKey, hmd] at hlog
  exact ⟨hlog, mem_loadFileInfoByDate hlog,
    fun hu => mem_getMd5sByDate (underscore_notMem_day E _) (underscore_notMem_logName (by decide)) hu hlog⟩

def busyNode : Server :=
  let s := ((fresh { cwd := [], nodes := ∅ }).saveFileMd5Log Env.plain { md5 := "m".toList }
      CONST_FILE_Md5_FILE_NAME).saveFileMd5Log
    Env.plain { md5 := "n".toList } CONST_FILE_Md5_FILE_NAME
  ((s.saveFileMd5Log Env.plain { md5 := "n".toList } CONST_REMOME_Md5_FILE_NAME).saveFileMd5Log Env.plain { md5 := "m".toList }
    CONST_Md5_QUEUE_FILE_NAME).cleanLogLevelDBByDate RowTexts.plain (Env.plain.day 0) CONST_Md5_QUEUE_FILE_NAME

theorem busyNode_reached : Relation.ReflTransGen (MetaStep Env.plain {}) (fresh { cwd := [], nodes := ∅ }) busyNode := by
  refine .tail (.tail (.tail (.tail (.single (.saveFileMd5Log _ { md5 := "m".toList } _ ?_))
    (.saveFileMd5Log _ { md5 := "n".toList } _ ?_)) (.saveFileMd5Log _ { md5 := "n".toList } _ ?_))
    (.saveFileMd5Log _ { md5 := "m".toList } _ ?_)) (.cleanLog _ RowTexts.plain _ _ ?_)
  all_goals decide

/-- The record that is left is in its log. -/
theorem saved_record_is_logged : busyNode.logDB.get (logKey (Env.plain.day 0) CONST_FILE_Md5_FILE_NAME "m".toList) =
    some { md5 := "m".toList } := by
  have hm : busyNode.getFileInfoFromLevelDB "m".toList = some { md5 := "m".toList } := by decide +kernel
  exact (recorded_is_logged Env.plain {} busyNode_reached hm rfl).1

end Server

end GoFastdfs
