/-
  GoFastdfs.Refusal — a deletion that fails (`RemoveFile` of `http_remove.go`,
  `SaveFileMd5Log` and `saveFileMd5Log` of `fileserver.go`).

  `RemoveFile` queues the end of the record first and asks the operating system to remove the
  file then. Of the exits with an answer of failure, the one behind `os.Remove` alone has
  something on the queue, and no entry takes it back.

  Proved: draining a log with one entry more is the entry on top of the drained log
  (`drainLog_logLater`); so a request that fails leaves everything that is known of the files
  as it would be without it, exactly if `os.Remove` was not refused for a record of which
  something is known (`failed_delete_keeps_iff`).
-/

import GoFastdfs.Redelivery

namespace GoFastdfs

open Go (Str)

variable (E : Env) (c : Config)

def RemoveEnd.fails : RemoveEnd → Bool
  | .removed _ => false
  | _ => true

namespace Server

/-- Two states know the same of every file: the records, the entries of the `files.md5` logs,
    and the counts. -/
structure KnowsSame (E : Env) (s s' : Server) : Prop where
  records : ∀ k, s'.ldb.get k = s.ldb.get k
  files : ∀ t m, s'.logDB.get (logKey (E.day t) CONST_FILE_Md5_FILE_NAME m) =
    s.logDB.get (logKey (E.day t) CONST_FILE_Md5_FILE_NAME m)
  stat : ∀ k, s'.statMap.get k = s.statMap.get k

/-- Something of the record is known, under its digest, the digest of its path, or its day. -/
def Known (E : Env) (s : Server) (fi : FileInfo) : Prop :=
  fi.md5 ≠ [] ∧ (s.ldb.get fi.md5 ≠ none ∨ s.ldb.get (E.md5 fi.fullpath) ≠ none ∨ s.logDB.get (fileKey E fi) ≠ none)

end Server

/-- The request gets to `os.Remove`, with the record `fi`, and is refused there. -/
structure RefusedByDisk (remove : Disk → Str → Option Disk) (s : Server) (r : Request) (w : RemoveDraw) (fi : FileInfo) :
    Prop where
  peer : w.isPeer = true
  auth : c.authUrl = [] ∨ w.auth = true
  digest : 32 ≤ (removeKey E c r).length
  record : s.getFileInfoFromLevelDB (removeKey E c r) = some fi
  whole : fi.offSet < 0
  path : fi.path ≠ []
  here : s.disk.fileExists (getFilePathByInfo c fi) = true
  refused : remove s.disk (getFilePathByInfo c fi) = none

section
variable {E c}

namespace Server

/-! ## The log queue -/

theorem saveFileMd5Log_setQueue (s : Server) (l : List FileLog) (fi : FileInfo) (n : Str) :
    ({ s with queueFileLog := l } : Server).saveFileMd5Log E fi n =
      { s.saveFileMd5Log E fi n with queueFileLog := l } := by
  unfold saveFileMd5Log isExistFromLevelDB
  cases s.ldb.has fi.md5 <;> (split_ifs <;> rfl)

theorem consumerLog_logLater {s : Server} {q : FileLog} {rest : List FileLog} (h : s.queueFileLog = q :: rest)
    (fi : FileInfo) (n : Str) : (s.logLater fi n).consumerLog E = (s.consumerLog E).logLater fi n := by
  have hlater : (s.logLater fi n).queueFileLog = q :: (rest ++ [⟨fi, n⟩]) := by rw [logLater, h, List.cons_append]
  have hleft : (s.logLater fi n).consumerLog E =
      ({ s with queueFileLog := rest ++ [⟨fi, n⟩] } : Server).saveFileMd5Log E q.fileInfo q.fileName := by
    simp only [consumerLog, hlater]
    rfl
  have hright : s.consumerLog E = ({ s with queueFileLog := rest } : Server).saveFileMd5Log E q.fileInfo q.fileName := by
    simp only [consumerLog, h]
  refine (hleft.trans (saveFileMd5Log_setQueue s _ _ _)).trans ?_
  rw [hright, saveFileMd5Log_setQueue s rest]
  rfl

theorem drainLog_logLater (s : Server) (fi : FileInfo) (n : Str) :
    (s.logLater fi n).drainLog E = (s.drainLog E).saveFileMd5Log E fi n := by
  unfold drainLog
  have hlen : (s.logLater fi n).queueFileLog.length = s.queueFileLog.length + 1 := by simp [logLater]
  rw [hlen]
  -- along the entries that come first
  induction hq : s.queueFileLog generalizing s with
  | nil =>
    have hlater : (s.logLater fi n).queueFileLog = [⟨fi, n⟩] := by rw [logLater, hq, List.nil_append]
    have hsame : ({ s.logLater fi n with queueFileLog := [] } : Server) = s := by rw [logLater, ← hq]
    rw [List.length_nil, Function.iterate_one, Function.iterate_zero, id, consumerLog, hlater]
    exact congrArg (·.saveFileMd5Log E fi n) hsame
  | cons q rest ih =>
    have hrest : (s.consumerLog E).queueFileLog = rest := by simp only [consumerLog, hq, saveFileMd5Log_queue]
    rw [List.length_cons, Function.iterate_succ_apply, consumerLog_logLater hq, Function.iterate_succ_apply]
    exact ih _ (by simp [logLater]) hrest

/-! ## The end of a record -/

theorem saveFileMd5Log_removes_get (s : Server) {fi : FileInfo} (h : fi.md5 ≠ []) (k : Str) :
    (s.saveFileMd5Log E fi CONST_REMOME_Md5_FILE_NAME).logDB.get k =
      if k = fileKey E fi ∨ k = logKey (E.day fi.timeStamp) CONST_REMOME_Md5_FILE_NAME fi.md5 then none
      else s.logDB.get k := by
  have hdel : ∀ d : Store Str FileInfo, ((d.del (logKey (E.day fi.timeStamp) CONST_REMOME_Md5_FILE_NAME fi.md5)).del
      (fileKey E fi)).get k = if k = fileKey E fi ∨ k = logKey (E.day fi.timeStamp) CONST_REMOME_Md5_FILE_NAME fi.md5
        then none else d.get k := by
    intro d
    rw [Store.get_del, Store.get_del, ite_or]
  simp only [saveFileMd5Log, h, logNames_ne.2.2, or_self, if_false, if_neg logNames_ne.1, if_true]
  cases s.isExistFromLevelDB fi.md5
  · exact hdel _
  · exact hdel _

theorem saveFileMd5Log_removes_stat {s : Server} {fi : FileInfo} (h : s.ldb.get fi.md5 = none) :
    (s.saveFileMd5Log E fi CONST_REMOME_Md5_FILE_NAME).statMap = s.statMap := by
  have hhas : s.isExistFromLevelDB fi.md5 = false := Store.has_eq_false.mpr h
  unfold saveFileMd5Log
  split
  · rfl
  · simp only [if_neg logNames_ne.1, if_true, hhas, Bool.false_eq_true, if_false]
    rfl

/-- The end of a record changes nothing where nothing of it is known. -/
theorem removes_keeps_iff (s : Server) (fi : FileInfo) :
    KnowsSame E s (s.saveFileMd5Log E fi CONST_REMOME_Md5_FILE_NAME) ↔ ¬ s.Known E fi := by
  by_cases hmd5 : fi.md5 = []
  · rw [saveFileMd5Log_nil E s hmd5]
    exact ⟨fun _ h => h.1 hmd5, fun _ => ⟨fun _ => rfl, fun _ _ => rfl, fun _ => rfl⟩⟩
  constructor
  · intro h hp
    obtain ⟨_, hknown⟩ := hp
    rcases hknown with hk | hk | hk
    · have hrec := h.records fi.md5
      rw [saveFileMd5Log_removes_ldb E s hmd5, Store.get_del, Store.get_del_self, ite_self] at hrec
      exact hk hrec.symm
    · have hrec := h.records (E.md5 fi.fullpath)
      rw [saveFileMd5Log_removes_ldb E s hmd5, Store.get_del_self] at hrec
      exact hk hrec.symm
    · have hfile : (s.saveFileMd5Log E fi CONST_REMOME_Md5_FILE_NAME).logDB.get (fileKey E fi) = s.logDB.get (fileKey E fi) :=
        h.files fi.timeStamp fi.md5
      rw [saveFileMd5Log_removes_get s hmd5, if_pos (Or.inl rfl)] at hfile
      exact hk hfile.symm
  · intro hno
    have hnone : s.ldb.get fi.md5 = none ∧ s.ldb.get (E.md5 fi.fullpath) = none ∧ s.logDB.get (fileKey E fi) = none := by
      simpa [Known, hmd5] using hno
    obtain ⟨hrec, hpath, hfile⟩ := hnone
    refine ⟨fun k => ?_, fun t m => ?_, fun k => ?_⟩
    · rw [saveFileMd5Log_removes_ldb E s hmd5, Store.get_del, Store.get_del]
      split_ifs with h1 h2
      · rw [h1, hpath]
      · rw [h2, hrec]
      · rfl
    · rw [saveFileMd5Log_removes_get s hmd5]
      split_ifs with h
      · rcases h with h | h
        · rw [h, hfile]
        · -- a `removes.md5` key is none of the `files.md5` keys
          have hname := (logKey_inj (underscore_notMem_day E _) (underscore_notMem_day E _)
            (underscore_notMem_logName (by decide)) (underscore_notMem_logName (by decide)) h).2.1
          exact absurd hname.symm logNames_ne.1
      · rfl
    · rw [saveFileMd5Log_removes_stat hrec]

/-! ## The exits -/

theorem removeFileOn_refused {remove : Disk → Str → Option Disk} {s : Server} {r : Request} {w : RemoveDraw} {fi : FileInfo}
    (h : RefusedByDisk E c remove s r w fi) : (s.removeFileOn E c remove r w).1.fails = true ∧
      (s.removeFileOn E c remove r w).2.2 = s.logLater fi CONST_REMOME_Md5_FILE_NAME := by
  have hauth : ¬ (c.authUrl ≠ [] ∧ w.auth = false) := by
    intro hp
    obtain ⟨h1, h2⟩ := hp
    rcases h.auth with ha | ha
    · exact h1 ha
    · rw [h2] at ha
      cases ha
  unfold removeFileOn
  rw [if_neg (by simp [h.peer]), if_neg hauth]
  dsimp only
  rw [if_neg (not_lt.mpr h.digest), h.record]
  dsimp only
  rw [if_neg (not_le.mpr h.whole), if_pos ⟨h.path, h.here⟩, h.refused]
  exact ⟨rfl, rfl⟩

theorem removeFileOn_fails {remove : Disk → Str → Option Disk} {s : Server} {r : Request} {w : RemoveDraw}
    (h : (s.removeFileOn E c remove r w).1.fails = true) :
    (s.removeFileOn E c remove r w).2.2 = s ∨ ∃ fi, RefusedByDisk E c remove s r w fi := by
  unfold removeFileOn at h ⊢
  by_cases hpeer : w.isPeer = false
  · rw [if_pos hpeer]
    exact Or.inl rfl
  rw [if_neg hpeer] at h ⊢
  by_cases hauth : c.authUrl ≠ [] ∧ w.auth = false
  · rw [if_pos hauth]
    exact Or.inl rfl
  rw [if_neg hauth] at h ⊢
  dsimp only at h ⊢
  by_cases hlen : (removeKey E c r).length < 32
  · rw [if_pos hlen]
    exact Or.inl rfl
  rw [if_neg hlen] at h ⊢
  cases hrec : s.getFileInfoFromLevelDB (removeKey E c r) with
  | none => exact Or.inl rfl
  | some fi =>
    rw [hrec] at h
    dsimp only at h ⊢
    by_cases hoff : 0 ≤ fi.offSet
    · rw [if_pos hoff]
      exact Or.inl rfl
    rw [if_neg hoff] at h ⊢
    by_cases hhere : fi.path ≠ [] ∧ s.disk.fileExists (getFilePathByInfo c fi) = true
    · rw [if_pos hhere] at h
      cases hremove : remove s.disk (getFilePathByInfo c fi) with
      | some d =>
        rw [hremove] at h
        cases h
      | none =>
        refine Or.inr ⟨fi, by simpa using hpeer, ?_, not_lt.mp hlen, hrec, not_le.mp hoff, hhere.1, hhere.2, hremove⟩
        by_cases hurl : c.authUrl = []
        · exact Or.inl hurl
        · exact Or.inr (by simpa [hurl] using hauth)
    · rw [if_neg hhere]
      exact Or.inl rfl

end Server

/-- For every request, and whatever `os.Remove` does: a deletion that fails leaves the node,
    with its log drained, knowing what it would know without the request, exactly if
    `os.Remove` was not refused for a record of which something is known then. -/
theorem failed_delete_keeps_iff (remove : Disk → Str → Option Disk) (s : Server) (r : Request) (w : RemoveDraw) :
    ((s.removeFileOn E c remove r w).1.fails = true →
      Server.KnowsSame E (s.drainLog E) ((s.removeFileOn E c remove r w).2.2.drainLog E)) ↔
    ∀ fi, RefusedByDisk E c remove s r w fi → ¬ (s.drainLog E).Known E fi := by
  constructor
  · intro h fi hrefused
    obtain ⟨hfails, hstate⟩ := Server.removeFileOn_refused hrefused
    have hsame := h hfails
    rw [hstate, Server.drainLog_logLater] at hsame
    exact (Server.removes_keeps_iff _ fi).mp hsame
  · intro h hfails
    rcases Server.removeFileOn_fails hfails with hstate | ⟨fi, hrefused⟩
    · rw [hstate]
      exact ⟨fun _ => rfl, fun _ _ => rfl, fun _ => rfl⟩
    · rw [(Server.removeFileOn_refused hrefused).2, Server.drainLog_logLater]
      exact (Server.removes_keeps_iff _ fi).mpr (h fi hrefused)

end

/-! ## Fixed inputs -/

def readOnlyRecord : FileInfo :=
  { name := "a.txt".toList, path := "files/d".toList, md5 := "5d41402abc4b2a76b9719d911017c592".toList, size := 5
    offSet := -1 }

def readOnlyServer : Server :=
  { ldb := (∅ : Store Str Value).put readOnlyRecord.md5 (.record readOnlyRecord)
    disk := Disk.ofFiles [("files/d/a.txt".toList, "hello".toList)] }

def readOnlyRemoval : Request := { requestURI := "/delete".toList, body := [("md5".toList, readOnlyRecord.md5)] }

/-- The request fails, the file stays, and the node forgets it. -/
theorem a_refused_delete_forgets_the_file :
    let u := readOnlyServer.removeFileOn Env.plain {} (fun _ _ => none) readOnlyRemoval {}
    u.1.fails = true ∧ u.2.2.disk.fileExists (getFilePathByInfo {} readOnlyRecord) = true ∧
      ¬ Server.KnowsSame Env.plain (readOnlyServer.drainLog Env.plain) (u.2.2.drainLog Env.plain) := by
  have hhere : readOnlyServer.disk.fileExists (getFilePathByInfo {} readOnlyRecord) = true := by decide +kernel
  have hrefused : RefusedByDisk Env.plain {} (fun _ _ => none) readOnlyServer readOnlyRemoval {} readOnlyRecord :=
    ⟨rfl, Or.inl rfl, by decide, rfl, by decide, by decide, hhere, rfl⟩
  obtain ⟨hfails, hstate⟩ := Server.removeFileOn_refused hrefused
  refine ⟨hfails, ?_, ?_⟩
  · rw [hstate]
    exact hhere
  · rw [hstate, Server.drainLog_logLater, Server.removes_keeps_iff, not_not, Server.drainLog_nil rfl]
    exact ⟨by decide, Or.inl (by simp [readOnlyServer])⟩

end GoFastdfs
