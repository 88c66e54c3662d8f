/-
  GoFastdfs.Ghosts — digests in a day's `files.md5` log that `ldb` no longer knows
  (`saveFileMd5Log`, `SaveFileInfoToLevelDB` of `fileserver.go`, `CheckFileExist` of
  `http_info.go`).

  `AutoRepair` takes the digests of a day's log for the files that are here, and fetches
  the others. `CheckFileExist` drops the record of a file that is gone and leaves its log
  entry, which the removal of a file deletes; and a digest saved again for another day
  stays in the log of the first.

  Proved: over every run in which no record is dropped or dated again while a log of
  another day, or for `CheckFileExist` any log, holds its digest, every digest of a
  day's log has a record of that day (`no_ghosts`).
-/

import GoFastdfs.Metadata

namespace GoFastdfs

open Go (Str)

namespace Server

variable (E : Env) (c : Config)

def LoggedOn (s : Server) (m : Str) (t : Int) : Prop :=
  ∃ v, s.logDB.get (logKey (E.day t) CONST_FILE_Md5_FILE_NAME m) = some v

/-- No log but that of the day of `t` holds `m`. -/
def LoggedOnlyOn (s : Server) (m : Str) (t : Int) : Prop := ∀ t', LoggedOn E s m t' → E.day t' = E.day t

def Drops (s : Server) (m : Str) : Prop :=
  ∃ v, s.getFileInfoFromLevelDB m = some v ∧ v.offSet = -1 ∧ s.disk.fileExists (getFilePathByInfo c v) = false

/-- The operations on the databases, where they drop and date again no record whose
    digest a log keeps for another day, and files coming and going on the disk. -/
inductive GhostStep : Server → Server → Prop
  | files (s : Server) (fi : FileInfo) : '_' ∉ fi.md5 → (fi.md5 ≠ [] → LoggedOnlyOn E s fi.md5 fi.timeStamp) →
      (fi.md5 ≠ [] → LoggedOnlyOn E s (E.md5 fi.fullpath) fi.timeStamp) →
      GhostStep s (s.saveFileMd5Log E fi CONST_FILE_Md5_FILE_NAME)
  | removes (s : Server) (fi : FileInfo) : (fi.md5 ≠ [] → LoggedOnlyOn E s fi.md5 fi.timeStamp) →
      (fi.md5 ≠ [] → E.md5 fi.fullpath ≠ fi.md5 → ∀ t, ¬ LoggedOn E s (E.md5 fi.fullpath) t) →
      GhostStep s (s.saveFileMd5Log E fi CONST_REMOME_Md5_FILE_NAME)
  | saveFileInfo (s : Server) (fi : FileInfo) : '_' ∉ fi.md5 → LoggedOnlyOn E s fi.md5 fi.timeStamp →
      GhostStep s (s.saveFileInfoToLevelDB E fi.md5 fi .ldb)
  | checkFileExist (s : Server) (md5sum fpath : Str) : (Drops c s md5sum → ∀ t, ¬ LoggedOn E s md5sum t) →
      GhostStep s (s.checkFileExist E c md5sum fpath).2
  | disk (s : Server) (d : Disk) : GhostStep s { s with disk := d }

/-- Every log entry is a digest's of some day, and the digest has a record of that day. -/
structure NoGhosts (s : Server) : Prop where
  keys : ∀ k v, s.logDB.get k = some v → ∃ t m, k = logKey (E.day t) CONST_FILE_Md5_FILE_NAME m ∧ '_' ∉ m
  known : ∀ t m, LoggedOn E s m t → ∃ u, s.ldb.get m = some (.record u) ∧ E.day u.timeStamp = E.day t

section
variable {E}

theorem fileKey_eq_logKey_iff {fi : FileInfo} {t : Int} {m : Str} :
    logKey (E.day t) CONST_FILE_Md5_FILE_NAME m = fileKey E fi ↔ E.day t = E.day fi.timeStamp ∧ m = fi.md5 := by
  constructor
  · intro h
    have := logKey_inj (underscore_notMem_day E _) (underscore_notMem_day E _)
      (underscore_notMem_logName (by decide)) (underscore_notMem_logName (by decide)) h
    exact ⟨this.1, this.2.2⟩
  · intro h
    rw [h.1, h.2]
    rfl

/-- Writing a record under some keys, its own among them, and its log entry: the digests
    written are logged for no other day. -/
theorem NoGhosts.save {s s' : Server} (h : NoGhosts E s) {fi : FileInfo} (hu : '_' ∉ fi.md5) (keys : List Str)
    (hself : fi.md5 ∈ keys)
    (hldb : ∀ m, s'.ldb.get m = if m ∈ keys then some (.record fi.persist) else s.ldb.get m)
    (hlog : ∀ k, s'.logDB.get k = if k = fileKey E fi then some fi.persist else s.logDB.get k)
    (honly : ∀ m ∈ keys, LoggedOnlyOn E s m fi.timeStamp) : NoGhosts E s' := by
  constructor
  · intro k v hk
    rw [hlog] at hk
    split at hk
    · rename_i e
      exact ⟨fi.timeStamp, fi.md5, e, hu⟩
    · exact h.keys k v hk
  · intro t m hm
    have hcase : (E.day t = E.day fi.timeStamp ∧ m = fi.md5) ∨ LoggedOn E s m t := by
      obtain ⟨v, hv⟩ := hm
      rw [hlog] at hv
      split at hv
      · exact Or.inl (fileKey_eq_logKey_iff.mp ‹_›)
      · exact Or.inr ⟨v, hv⟩
    rw [hldb]
    by_cases hmem : m ∈ keys
    · rw [if_pos hmem]
      refine ⟨_, rfl, ?_⟩
      rcases hcase with ⟨ht, _⟩ | hold
      · exact ht.symm
      · exact (honly m hmem t hold).symm
    · rw [if_neg hmem]
      rcases hcase with ⟨_, rfl⟩ | hold
      · exact absurd hself hmem
      · exact h.known t m hold

/-- Dropping records whose digests are logged for no day that stays. -/
theorem NoGhosts.drop {s s' : Server} (h : NoGhosts E s) (keys : List Str)
    (hldb : ∀ m, m ∉ keys → s'.ldb.get m = s.ldb.get m)
    (hlog : ∀ k v, s'.logDB.get k = some v → s.logDB.get k = some v)
    (hgone : ∀ m ∈ keys, ∀ t, ¬ LoggedOn E s' m t) : NoGhosts E s' := by
  constructor
  · intro k v hk
    exact h.keys k v (hlog k v hk)
  · intro t m hm
    have hold : LoggedOn E s m t := by
      obtain ⟨v, hv⟩ := hm
      exact ⟨v, hlog _ v hv⟩
    rw [hldb m fun hmem => hgone m hmem t hm]
    exact h.known t m hold

theorem NoGhosts.files {s : Server} (h : NoGhosts E s) {fi : FileInfo} (hu : '_' ∉ fi.md5)
    (hown : fi.md5 ≠ [] → LoggedOnlyOn E s fi.md5 fi.timeStamp)
    (hpath : fi.md5 ≠ [] → LoggedOnlyOn E s (E.md5 fi.fullpath) fi.timeStamp) :
    NoGhosts E (s.saveFileMd5Log E fi CONST_FILE_Md5_FILE_NAME) := by
  by_cases h0 : fi.md5 = []
  · rw [saveFileMd5Log_nil E s h0]
    exact h
  refine h.save hu [fi.md5, E.md5 fi.fullpath] List.mem_cons_self ?_ (saveFileMd5Log_files_logDB E s h0) ?_
  · intro m
    rw [saveFileMd5Log_files_ldb E s h0, Store.get_put, Store.get_put]
    simp only [List.mem_cons, List.not_mem_nil, or_false]
    by_cases h1 : m = E.md5 fi.fullpath
    · simp [h1]
    · by_cases h2 : m = fi.md5
      · simp [h2]
      · simp [h1, h2]
  · intro m hm
    simp only [List.mem_cons, List.not_mem_nil, or_false] at hm
    rcases hm with rfl | rfl
    · exact hown h0
    · exact hpath h0

theorem NoGhosts.removes {s : Server} (h : NoGhosts E s) {fi : FileInfo}
    (hown : fi.md5 ≠ [] → LoggedOnlyOn E s fi.md5 fi.timeStamp)
    (hpath : fi.md5 ≠ [] → E.md5 fi.fullpath ≠ fi.md5 → ∀ t, ¬ LoggedOn E s (E.md5 fi.fullpath) t) :
    NoGhosts E (s.saveFileMd5Log E fi CONST_REMOME_Md5_FILE_NAME) := by
  by_cases h0 : fi.md5 = []
  · rw [saveFileMd5Log_nil E s h0]
    exact h
  have hlog : ∀ t m, LoggedOn E (s.saveFileMd5Log E fi CONST_REMOME_Md5_FILE_NAME) m t →
      LoggedOn E s m t ∧ ¬ (E.day t = E.day fi.timeStamp ∧ m = fi.md5) := by
    intro t m hm
    obtain ⟨v, hv⟩ := hm
    obtain ⟨hne, hv⟩ := saveFileMd5Log_removes_logDB E s h0 hv
    exact ⟨⟨v, hv⟩, fun e => hne (fileKey_eq_logKey_iff.mpr e)⟩
  refine h.drop [fi.md5, E.md5 fi.fullpath] ?_ (fun k v hk => (saveFileMd5Log_removes_logDB E s h0 hk).2) ?_
  · intro m hm
    simp only [List.mem_cons, List.not_mem_nil, or_false, not_or] at hm
    rw [saveFileMd5Log_removes_ldb E s h0, Store.get_del_ne _ hm.2, Store.get_del_ne _ hm.1]
  · intro m hm t hlogged
    obtain ⟨hold, hne⟩ := hlog t m hlogged
    have hfi : m = fi.md5 → False := by
      intro heq
      subst heq
      exact hne ⟨hown h0 t hold, rfl⟩
    simp only [List.mem_cons, List.not_mem_nil, or_false] at hm
    rcases hm with rfl | rfl
    · exact hfi rfl
    · exact hpath h0 hfi t hold

theorem NoGhosts.saveFileInfo {s : Server} (h : NoGhosts E s) {fi : FileInfo} (hu : '_' ∉ fi.md5)
    (hown : LoggedOnlyOn E s fi.md5 fi.timeStamp) : NoGhosts E (s.saveFileInfoToLevelDB E fi.md5 fi .ldb) := by
  refine h.save hu [fi.md5] List.mem_cons_self ?_ (fun k => Store.get_put _ _ k _) ?_
  · intro m
    simp only [saveFileInfoToLevelDB, Store.get_put, List.mem_singleton]
  · intro m hm
    rw [List.mem_singleton.mp hm]
    exact hown

theorem NoGhosts.checkFileExist {c : Config} {s : Server} (h : NoGhosts E s) {md5sum : Str}
    (hgone : Drops c s md5sum → ∀ t, ¬ LoggedOn E s md5sum t) (fpath : Str) :
    NoGhosts E (s.checkFileExist E c md5sum fpath).2 := by
  unfold Server.checkFileExist
  split
  · rename_i v hv
    split
    · exact h
    rename_i hoff
    split
    · exact h
    rename_i hfile
    have hdrop : Drops c s md5sum := ⟨v, hv, by simpa using hoff, by simpa using hfile⟩
    refine h.drop [md5sum] ?_ (fun _ _ hk => hk) ?_
    · intro m hm
      exact Store.get_del_ne _ (by simpa using hm)
    · intro m hm
      rw [List.mem_singleton.mp hm]
      exact hgone hdrop
  · split
    · exact h
    · split
      · exact h
      · exact h

end

theorem noGhosts_step {s s' : Server} (hs : GhostStep E c s s') (h : NoGhosts E s) : NoGhosts E s' := by
  cases hs with
  | files fi hu hown hpath => exact h.files hu hown hpath
  | removes fi hown hpath => exact h.removes hown hpath
  | saveFileInfo fi hu hown => exact h.saveFileInfo hu hown
  | checkFileExist md5sum fpath hgone => exact h.checkFileExist hgone fpath
  | disk d => exact ⟨h.keys, h.known⟩

theorem noGhosts_run {d : Disk} {s : Server} (h : Relation.ReflTransGen (GhostStep E c) (fresh d) s) : NoGhosts E s := by
  induction h with
  | refl =>
    constructor
    · intro k v hk
      cases hk
    · intro t m hm
      obtain ⟨v, hv⟩ := hm
      cases hv
  | tail _ hs ih => exact noGhosts_step E c hs ih

theorem loggedOn_of_mem_getMd5sByDate {s : Server} (h : NoGhosts E s) {d m : Str}
    (hm : m ∈ s.getMd5sByDate d CONST_FILE_Md5_FILE_NAME) : ∃ t, d = E.day t ∧ LoggedOn E s m t := by
  obtain ⟨x, hx, hpiece⟩ := List.mem_filterMap.mp hm
  obtain ⟨hget, hprefix⟩ := Store.mem_scan.mp hx
  obtain ⟨t, m', hkey, hu⟩ := h.keys x.1 x.2 hget
  have hsplit := splitOn_logKey (m := m') (underscore_notMem_day E t) (underscore_notMem_logName (n := CONST_FILE_Md5_FILE_NAME)
    (by decide))
  rw [hkey, hsplit, List.splitOn_eq_singleton hu] at hpiece
  obtain rfl : m' = m := Option.some.inj hpiece
  -- a date with a `_` in it would ask for more pieces than a key has
  rw [hkey] at hprefix
  have hd : '_' ∉ d := by
    intro hd
    have hcount := (Go.hasPrefix_iff.mp hprefix).sublist.count_le '_'
    have hday : (E.day t).count '_' = 0 := List.count_eq_zero.mpr (underscore_notMem_day E t)
    have hm0 : m'.count '_' = 0 := List.count_eq_zero.mpr hu
    have hpos : 0 < d.count '_' := List.count_pos_iff.mpr hd
    simp only [logKey, keyPrefix, List.count_append, List.count_cons, List.count_nil, hday, hm0, beq_self_eq_true,
      if_true] at hcount
    omega
  obtain ⟨hday, _⟩ := hasPrefix_keyPrefix (underscore_notMem_day E t) hd (underscore_notMem_logName (by decide))
    (underscore_notMem_logName (by decide)) hprefix
  exact ⟨t, hday.symm, x.2, hkey ▸ hget⟩

/-- No day's log names a digest that has no record of that day. -/
theorem no_ghosts {d : Disk} {s : Server} (h : Relation.ReflTransGen (GhostStep E c) (fresh d) s) {date m : Str}
    (hm : m ∈ s.getMd5sByDate date CONST_FILE_Md5_FILE_NAME) :
    ∃ u, s.getFileInfoFromLevelDB m = some u ∧ E.day u.timeStamp = date := by
  obtain ⟨t, rfl, hlogged⟩ := loggedOn_of_mem_getMd5sByDate E (noGhosts_run E c h) hm
  obtain ⟨u, hu, hday⟩ := (noGhosts_run E c h).known t m hlogged
  exact ⟨u, getFileInfo_eq_some.mpr hu, hday⟩

def loggedRecord : FileInfo := { name := "a".toList, path := "files/d".toList, md5 := "m".toList, offSet := -1 }

/-- The file is gone, a peer asks for it, and the log of the day still names it. -/
theorem a_dropped_record_leaves_a_ghost :
    let s := (fresh (Disk.ofFiles [])).saveFileMd5Log Env.plain loggedRecord CONST_FILE_Md5_FILE_NAME
    let s := (s.checkFileExist Env.plain {} "m".toList []).2
    "m".toList ∈ s.getMd5sByDate (Env.plain.day 0) CONST_FILE_Md5_FILE_NAME ∧ s.getFileInfoFromLevelDB "m".toList = none := by
  decide +kernel

theorem loggedOn_entry {E : Env} {s : Server} {m : Str} (hu : '_' ∉ m) {t : Int} (h : LoggedOn E s m t) :
    ∃ e ∈ s.logDB.entries, e.1 = logKey (E.day t) CONST_FILE_Md5_FILE_NAME m ∧ (e.1.splitOn '_').drop 2 = [m] := by
  obtain ⟨v, hv⟩ := h
  refine ⟨_, Store.mem_entries.mpr hv, rfl, ?_⟩
  rw [splitOn_logKey (underscore_notMem_day E t) (underscore_notMem_logName (by decide)), List.splitOn_eq_singleton hu]
  rfl

theorem loggedOnlyOn_of_entries {E : Env} {s : Server} {m : Str} (hu : '_' ∉ m) {t : Int}
    (h : ∀ e ∈ s.logDB.entries, (e.1.splitOn '_').drop 2 = [m] → e.1 = logKey (E.day t) CONST_FILE_Md5_FILE_NAME m) :
    LoggedOnlyOn E s m t := by
  intro t' hlogged
  obtain ⟨e, he, hkey, hsplit⟩ := loggedOn_entry hu hlogged
  exact (logKey_inj (underscore_notMem_day E _) (underscore_notMem_day E _) (underscore_notMem_logName (by decide))
    (underscore_notMem_logName (by decide)) (hkey.symm.trans (h e he hsplit))).1

def laterRecord : FileInfo :=
  { name := "b".toList, path := "files/d".toList, md5 := "n".toList, offSet := -1, timeStamp := 86400 }

/-- Two records saved, the first again with its size. -/
def savedTwice : Server :=
  (((fresh (Disk.ofFiles [("files/d/a".toList, "hello".toList)])).saveFileMd5Log Env.plain loggedRecord
    CONST_FILE_Md5_FILE_NAME).saveFileMd5Log Env.plain laterRecord CONST_FILE_Md5_FILE_NAME).saveFileInfoToLevelDB Env.plain
    "m".toList { loggedRecord with size := 5 } .ldb

theorem savedTwice_run : Relation.ReflTransGen (GhostStep Env.plain {})
    (fresh (Disk.ofFiles [("files/d/a".toList, "hello".toList)])) savedTwice := by
  refine .tail (.tail (.single (.files _ loggedRecord (by decide) (fun _ => ?_) fun _ => ?_))
    (.files _ laterRecord (by decide) (fun _ => ?_) fun _ => ?_)) (.saveFileInfo _ { loggedRecord with size := 5 }
      (by decide) ?_)
  all_goals exact loggedOnlyOn_of_entries (by decide +kernel) (by decide +kernel)

/-- The first is asked for, and the second removed: the log of the first day has the first. -/
theorem a_saved_record_is_no_ghost :
    let s := (savedTwice.checkFileExist Env.plain {} "m".toList []).2
    ∃ u, (s.saveFileMd5Log Env.plain laterRecord CONST_REMOME_Md5_FILE_NAME).getFileInfoFromLevelDB "m".toList = some u ∧
      Env.plain.day u.timeStamp = Env.plain.day 0 := by
  intro s
  have hthere : ¬ Drops {} savedTwice "m".toList := by
    intro hdrop
    obtain ⟨v, hv, -, hfile⟩ := hdrop
    have hrecord : savedTwice.getFileInfoFromLevelDB "m".toList = some { loggedRecord with size := 5 } := by decide +kernel
    obtain rfl := Option.some.inj (hrecord.symm.trans hv)
    exact absurd hfile (by decide +kernel)
  have hpath : ∀ e ∈ s.logDB.entries, (e.1.splitOn '_').drop 2 ≠ [Env.plain.md5 laterRecord.fullpath] := by decide +kernel
  have hrun := savedTwice_run.tail (.checkFileExist savedTwice "m".toList [] fun h => absurd h hthere)
  refine no_ghosts Env.plain {} (hrun.tail (.removes s laterRecord (fun _ => ?_) fun _ _ t hlogged => ?_)) (m := "m".toList)
    (by decide +kernel)
  · exact loggedOnlyOn_of_entries (by decide) (by decide +kernel)
  · obtain ⟨e, he, -, hsplit⟩ := loggedOn_entry (by decide +kernel) hlogged
    exact hpath e he hsplit

end Server

end GoFastdfs
