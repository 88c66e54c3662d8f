/-
  GoFastdfs.Cleaning — the cleaning of a day's log (`CleanLogLevelDBByDate`,
  `CleanAndBackUp` of `fileserver.go`).

  The pass over the log collects the values it finds and then deletes them as if they were
  keys. A value is the JSON text of a record; a key begins with a day.

  Proved: in every state reached by the writes to the log, and by cleanings of it, no key is
  such a text (`logKeyed_run`), so cleaning deletes nothing, and leaves its log empty exactly
  if it was empty before (`cleans_iff`).
-/

import GoFastdfs.Metadata

namespace GoFastdfs

open Go (Str)

variable (E : Env)

/-! ## Runs -/

/-- What is done to the log: records saved to one of its files or to `ldb`, and cleanings. -/
inductive LogStep : Server → Server → Prop
  | saveFileMd5Log (s : Server) (fi : FileInfo) (filename : Str) : LogStep s (s.saveFileMd5Log E fi filename)
  | saveFileInfo (s : Server) (key : Str) (fi : FileInfo) : LogStep s (s.saveFileInfoToLevelDB E key fi .ldb)
  | saveLog (s : Server) (t : Int) (filename md5 : Str) (fi : FileInfo) :
      LogStep s (s.saveFileInfoToLevelDB E (logKey (E.day t) filename md5) fi .logDB)
  | cleanLog (s : Server) (texts : RowTexts) (date filename : Str) : LogStep s (s.cleanLogLevelDBByDate texts date filename)

def LogKeyed (s : Server) : Prop := ∀ k v, s.logDB.get k = some v → ∃ t n m, k = logKey (E.day t) n m

/-- Cleaning does what it is for: the log of the day is gone, and nothing else is. -/
structure Cleans (s s' : Server) (date filename : Str) : Prop where
  gone : ∀ k, Go.hasPrefix k (keyPrefix date filename) = true → s'.logDB.get k = none
  md5s : s'.getMd5sByDate date filename = []
  infos : s'.loadFileInfoByDate date filename = []
  kept : ∀ k, Go.hasPrefix k (keyPrefix date filename) = false → s'.logDB.get k = s.logDB.get k

section
variable {E}

theorem LogKeyed.put {s : Server} (h : LogKeyed E s) (t : Int) (n m : Str) (v : FileInfo) {s' : Server}
    (hs' : s'.logDB = s.logDB.put (logKey (E.day t) n m) v) : LogKeyed E s' := by
  intro k w hk
  rw [hs', Store.get_put] at hk
  split_ifs at hk with hkey
  · exact ⟨t, n, m, hkey⟩
  · exact h k w hk

theorem LogKeyed.sub {s s' : Server} (h : LogKeyed E s) (hsub : ∀ k v, s'.logDB.get k = some v → s.logDB.get k = some v) :
    LogKeyed E s' :=
  fun k v hk => h k v (hsub k v hk)

theorem logKeyed_saveFileMd5Log {s : Server} (h : LogKeyed E s) (fi : FileInfo) (filename : Str) :
    LogKeyed E (s.saveFileMd5Log E fi filename) := by
  by_cases hmd5 : fi.md5 = []
  · rwa [Server.saveFileMd5Log_nil E s hmd5]
  by_cases hfiles : filename = CONST_FILE_Md5_FILE_NAME
  · subst hfiles
    intro k v hk
    rw [Server.saveFileMd5Log_files_logDB E s hmd5] at hk
    split_ifs at hk with hkey
    · exact ⟨_, _, _, hkey⟩
    · exact h k v hk
  by_cases hremoves : filename = CONST_REMOME_Md5_FILE_NAME
  · subst hremoves
    exact h.sub fun k v hk => (Server.saveFileMd5Log_removes_logDB E s hmd5 hk).2
  · unfold Server.saveFileMd5Log
    dsimp only
    rw [if_neg hfiles, if_neg hremoves]
    split_ifs
    · exact h
    · exact h.put _ _ _ _ rfl

theorem cleanLog_get_none {s : Server} {k : Str} (h : s.logDB.get k = none) (texts : RowTexts) (date filename : Str) :
    (s.cleanLogLevelDBByDate texts date filename).logDB.get k = none := by
  unfold Server.cleanLogLevelDBByDate
  generalize s.logDB.scan _ = l
  induction l generalizing s with
  | nil => exact h
  | cons x l ih =>
    refine ih ?_
    simp only [Server.removeKeyFromLevelDB, Store.get_del, h, ite_self]

/-- Cleaning deletes nothing: the keys begin with a day, the texts with a brace. -/
theorem cleanLog_logDB {s : Server} (h : LogKeyed E s) (texts : RowTexts) (date filename k : Str) :
    (s.cleanLogLevelDBByDate texts date filename).logDB.get k = s.logDB.get k := by
  cases hk : s.logDB.get k with
  | none => exact cleanLog_get_none hk texts date filename
  | some v =>
    obtain ⟨t, n, m, rfl⟩ := h k v hk
    rw [← hk]
    exact Server.cleanLog_get s texts date filename (Server.logKey_ne_text (Server.brace_notMem_day E t) texts)

theorem logKeyed_step {s s' : Server} (hs : LogStep E s s') (h : LogKeyed E s) : LogKeyed E s' := by
  cases hs with
  | saveFileMd5Log fi filename => exact logKeyed_saveFileMd5Log h fi filename
  | saveFileInfo key fi => exact h.put _ _ _ _ rfl
  | saveLog t filename md5 fi => exact h.put _ _ _ _ rfl
  | cleanLog texts date filename => exact h.sub fun k v hk => by rwa [cleanLog_logDB h] at hk

theorem logKeyed_run {d : Disk} {s : Server} (h : Relation.ReflTransGen (LogStep E) (Server.fresh d) s) : LogKeyed E s := by
  induction h with
  | refl => intro k v hk; cases hk
  | tail _ hs ih => exact logKeyed_step hs ih

/-! ## One cleaning -/

theorem scan_eq_nil {s : Server} {date filename : Str}
    (h : ∀ k, Go.hasPrefix k (keyPrefix date filename) = true → s.logDB.get k = none) :
    s.logDB.scan (Go.hasPrefix · (keyPrefix date filename)) = [] := by
  refine List.eq_nil_iff_forall_not_mem.mpr fun x hx => ?_
  obtain ⟨hget, hprefix⟩ := Store.mem_scan.mp hx
  rw [h x.1 hprefix] at hget
  cases hget

/-- A cleaning does what it is for exactly if there is nothing to clean. -/
theorem cleans_iff {d : Disk} {s : Server} (hrun : Relation.ReflTransGen (LogStep E) (Server.fresh d) s)
    (texts : RowTexts) (date filename : Str) :
    Cleans s (s.cleanLogLevelDBByDate texts date filename) date filename ↔
      ∀ k, Go.hasPrefix k (keyPrefix date filename) = true → s.logDB.get k = none := by
  have hget := cleanLog_logDB (logKeyed_run hrun) texts date filename
  constructor
  · intro h k hk
    rw [← hget k]
    exact h.gone k hk
  · intro h
    have hgone : ∀ k, Go.hasPrefix k (keyPrefix date filename) = true →
        (s.cleanLogLevelDBByDate texts date filename).logDB.get k = none := fun k hk => (hget k).trans (h k hk)
    refine ⟨hgone, ?_, ?_, fun k _ => hget k⟩
    · rw [Server.getMd5sByDate, scan_eq_nil hgone, List.filterMap_nil]
    · rw [Server.loadFileInfoByDate, scan_eq_nil hgone, List.map_nil]

end

/-! ## Fixed inputs -/

def unpushed : FileInfo := { name := "a".toList, path := "files".toList, md5 := "m".toList, size := 1, offSet := -1 }

def afterError : Server :=
  (Server.fresh { cwd := [], nodes := ∅ }).saveFileMd5Log Env.plain unpushed CONST_Md5_ERROR_FILE_NAME

theorem afterError_run : Relation.ReflTransGen (LogStep Env.plain) (Server.fresh { cwd := [], nodes := ∅ }) afterError :=
  .single (.saveFileMd5Log _ unpushed CONST_Md5_ERROR_FILE_NAME)

theorem afterError_get {k : Str} {v : FileInfo} (h : afterError.logDB.get k = some v) :
    k = "19700101_errors.md5_m".toList := by
  have hlog : afterError.logDB = (∅ : Store Str FileInfo).put "19700101_errors.md5_m".toList unpushed :=
    AList.ext (by decide +kernel)
  rw [hlog, Store.get_put, Store.get_empty] at h
  split_ifs at h with hk
  exact hk

/-- The log of another day has nothing to clean. -/
theorem cleans_iff_otherDay :
    Cleans afterError (afterError.cleanLogLevelDBByDate .plain "19700102".toList CONST_Md5_ERROR_FILE_NAME) "19700102".toList
      CONST_Md5_ERROR_FILE_NAME := by
  refine (cleans_iff afterError_run _ _ _).mpr fun k hk => ?_
  cases h : afterError.logDB.get k with
  | none => rfl
  | some v =>
    rw [afterError_get h] at hk
    exact absurd hk (by decide +kernel)

/-- The entry is still there after its day's log is cleaned. -/
theorem a_cleaned_log_is_replayed :
    ¬ Cleans afterError (afterError.cleanLogLevelDBByDate .plain "19700101".toList CONST_Md5_ERROR_FILE_NAME) "19700101".toList
      CONST_Md5_ERROR_FILE_NAME := by
  intro h
  exact absurd h.md5s (by decide +kernel)

end GoFastdfs
