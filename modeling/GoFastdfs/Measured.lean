/-
  GoFastdfs.Measured — the size of what a fetch records (`DownloadFromPeer`).

  A fetch saves a record in three places: at once where a migrated file is there already with
  the announced size, and behind the data where a merged file was written into its pack or a
  whole file was renamed into place. The sizes of a merged and of a whole file are taken from
  the data; that of the file there already is what `os.Stat` says, and `os.Stat` says one for
  a directory, too.

  Proved: on every disk and with every answer, what is recorded is a file of the announced
  size, or the marker and the data in the pack, except where the path of a migrated file leads
  to a directory with the size of the record (`recorded_is_measured_iff`).
-/

import GoFastdfs.Held

namespace GoFastdfs

open Go (Str)

variable (E : Env) (c : Config)

/-- Metadata came: an entry for the log, a record under a key, or one in the log's database. -/
def Server.Saves (s s' : Server) : Prop :=
  s'.queueFileLog ≠ s.queueFileLog ∨ (∃ k fi, s'.ldb.get k = some (.record fi) ∧ s.ldb.get k ≠ some (.record fi)) ∨
    s'.logDB ≠ s.logDB

/-- The data is where the record says, with the size that it says: in the pack behind its
    marker, or the whole file, and if it was fetched, then it is what the peer sent. -/
def Measured (fi : FileInfo) (w : Download) (r : Server × FetchEnd) : Prop :=
  if 0 ≤ fi.offSet then
    ∃ data x, w.data = some data ∧ ((('1' :: data).length : Nat) : Int) = fi.size ∧
      r.1.disk.read (Go.splitHead ',' (getFilePathByInfo c fi)) = some x ∧
      Disk.slice x fi.offSet.toNat ('1' :: data).length = some ('1' :: data)
  else ∃ x, r.1.disk.read (getFilePathByInfo c fi) = some x ∧ (x.length : Int) = fi.size ∧
    (r.2 = .stored → w.data = some x)

/-- A migrated file is to be fetched, and once `os.Remove` was tried and the folder made, its
    path leads to a directory, whose size is the record's. -/
structure TakesDirectory (d : Disk) (fi : FileInfo) (w : Download) : Prop where
  migrated : fi.offSet = -2
  size : fi.size = Node.dir.size
  writable : c.readOnly = false
  retries : Server.outOfRetries c fi = false
  older : ∀ n, d.stat (getFilePathByInfo c fi) = some n → n.modTime w.now ≤ fi.timeStamp
  dir : (fetchDisk c ((d.remove (getFilePathByInfo c fi)).getD d) fi).stat (getFilePathByInfo c fi) = some .dir

section
variable {E c}

theorem Disk.remove_of_stat_none {d : Disk} {p : Str} (h : d.stat p = none) : d.remove p = none := by
  unfold Disk.remove
  cases hl : d.locate p with
  | none => rfl
  | some l =>
    have hn : d.node l = none := by simpa [Disk.stat, hl] using h
    simp only [hn]

namespace Server

def Silent (s s' : Server) : Prop := s'.queueFileLog = s.queueFileLog ∧ s'.ldb = s.ldb ∧ s'.logDB = s.logDB

/-- No metadata came, or what came is measured. -/
def Accurate (c : Config) (fi : FileInfo) (w : Download) (s : Server) (r : Server × FetchEnd) : Prop :=
  Silent s r.1 ∨ Measured c fi w r

theorem read_of_stat {d : Disk} {p x : Str} {t : Int} (h : d.stat p = some (.file x t)) : d.read p = some x := by
  rw [Disk.read, h]

/-- The end of a request for a whole file is `stored` for a measured file only. -/
theorem askFile_measured {d : Disk} {fi : FileInfo} {w : Download} (hoff : fi.offSet < 0) {s : Server}
    (h : (s.disk, FetchEnd.stored) = askFile c d fi w) : Measured c fi w (s, .stored) := by
  have hcase := askFile_cases (c := c) d fi w
  rw [← h] at hcase
  obtain ⟨data, k, hw, hsize, hk, hstat⟩ := hcase.stat_stored
  rw [Measured, if_neg (by omega)]
  exact ⟨data, read_of_stat (hstat _ hk), hsize, fun _ => hw⟩

theorem Answered.silent {s : Server} {fi : FileInfo} {r : Server × FetchEnd} (h : Answered E c s fi r)
    (hsize : fi.offSet = -2 → (s.disk.stat (getFilePathByInfo c fi)).map Node.size ≠ some fi.size) :
    Silent s r.1 ∨ r.2 = .stored := by
  cases h with
  | present hoff hsame => exact absurd hsame (hsize hoff)
  | requeued | failed => exact Or.inl ⟨rfl, rfl, rfl⟩
  | recorded | logged => exact Or.inr rfl

theorem downloadNormal_accurate (E : Env) (s : Server) {fi : FileInfo} (hoff : fi.offSet < 0) (h2 : fi.offSet ≠ -2)
    (w : Download) : Accurate c fi w s (s.downloadNormal c fi w) := by
  have hanswered := downloadNormal_answered (E := E) (c := c) s h2 w
  refine (hanswered.silent fun h => absurd h h2).imp id fun hend => ?_
  have hask := downloadNormal_asks (c := c) s fi w
  have hpair : s.downloadNormal c fi w = ((s.downloadNormal c fi w).1, .stored) := Prod.ext rfl hend
  rw [hend] at hask
  rw [hpair]
  exact askFile_measured hoff hask

/-- A migrated file, too, unless its path leads to a directory of the record's size. -/
theorem downloadMigrated_accurate (s : Server) {fi : FileInfo} (h2 : fi.offSet = -2) (w : Download) :
    Accurate c fi w s (s.downloadMigrated E c fi w) ∨
      s.disk.stat (getFilePathByInfo c fi) = some .dir ∧ fi.size = Node.dir.size := by
  have hoff : fi.offSet < 0 := by omega
  by_cases hsize : ((s.disk.stat (getFilePathByInfo c fi)).map Node.size) = some fi.size
  · obtain ⟨n, hn, hnsize⟩ := Option.map_eq_some_iff.mp hsize
    cases n with
    | dir => exact Or.inr ⟨hn, hnsize.symm⟩
    | file x t =>
      refine Or.inl (Or.inr ?_)
      unfold downloadMigrated
      rw [if_pos hsize, Measured, if_neg (by omega)]
      exact ⟨x, read_of_stat hn, hnsize, fun h => by cases h⟩
  · have hanswered := downloadMigrated_answered (E := E) (c := c) s h2 w
    refine Or.inl ((hanswered.silent fun _ => hsize).imp id fun hend => ?_)
    have hask := downloadMigrated_asks (E := E) (c := c) w hsize
    have hpair : s.downloadMigrated E c fi w = ((s.downloadMigrated E c fi w).1, .stored) := Prod.ext rfl hend
    rw [hend] at hask
    rw [hpair]
    exact askFile_measured hoff hask

theorem slice_overwrite (old data : Str) (off : Nat) :
    Disk.slice (Disk.overwrite old off data) off data.length = some data := by
  by_cases hdata : data.length = 0
  · rw [List.length_eq_zero_iff.mp hdata]
    rfl
  · exact (Disk.slice_eq_some hdata).mpr ⟨rfl, fun i hi => Disk.overwrite_inside old data off hi⟩

theorem downloadSmall_accurate (s : Server) {fi : FileInfo} (hoff : 0 ≤ fi.offSet) (w : Download) :
    Accurate c fi w s (s.downloadSmall c fi w) := by
  unfold downloadSmall
  cases hw : w.data with
  | none => exact Or.inl ⟨rfl, rfl, rfl⟩
  | some data =>
    dsimp only
    split
    · exact Or.inl ⟨rfl, rfl, rfl⟩
    rename_i hsize
    split
    · exact Or.inl ⟨rfl, rfl, rfl⟩
    · rename_i d hd
      refine Or.inr ?_
      obtain ⟨l, hl, hdir, rfl⟩ := Disk.modify_eq_some.mp hd
      rw [Measured, if_pos hoff]
      exact ⟨data, _, hw, not_not.mp hsize, (Disk.read_put hdir _ _ _).trans (if_pos hl),
        slice_overwrite _ ('1' :: data) fi.offSet.toNat⟩

theorem not_saves_of_silent {s t : Server} {r : Server} {key : Str} (hlog : t.queueFileLog = s.queueFileLog)
    (hldb : t.ldb = s.ldb.put key .empty) (hlogDB : t.logDB = s.logDB) (h : Silent t r) :
    ¬ s.Saves { r with ldb := r.ldb.del key } := by
  obtain ⟨hq, hl, hd⟩ := h
  intro hcase
  rcases hcase with hne | ⟨k, fi, hk, hne⟩ | hne
  · exact hne (hq.trans hlog)
  · obtain ⟨hkey, hk⟩ := Store.get_del_some hk
    rw [hl, hldb, Store.get_put_ne _ _ hkey] at hk
    exact hne hk
  · exact hne (hd.trans hlogDB)

/-- A request saves what is measured, unless a migrated file's path leads to a directory. -/
theorem downloadRequest_accurate {s : Server} {fi : FileInfo} {w : Download}
    (hsaves : s.Saves (s.downloadRequest E c fi w).1) : Measured c fi w (s.downloadRequest E c fi w) ∨
      fi.offSet = -2 ∧ (fetchDisk c s.disk fi).stat (getFilePathByInfo c fi) = some .dir ∧ fi.size = Node.dir.size := by
  -- the fetch itself runs on the server that has the key
  have hmeasured : ∀ r : Server × FetchEnd, Accurate c fi w (asking c s fi w) r →
      s.Saves { r.1 with ldb := r.1.ldb.del (downloadKey w.start (getFilePathByInfo c fi)) } →
      Measured c fi w ({ r.1 with ldb := r.1.ldb.del (downloadKey w.start (getFilePathByInfo c fi)) }, r.2) := by
    intro r hr hs
    rcases hr with hr | hr
    · exact absurd hs (not_saves_of_silent (t := asking c s fi w) rfl rfl rfl hr)
    · exact hr
  have hdef : s.downloadRequest E c fi w =
      (let r := if fi.offSet = -2 then downloadMigrated E c (asking c s fi w) fi w
        else if 0 ≤ fi.offSet then downloadSmall c (asking c s fi w) fi w else downloadNormal c (asking c s fi w) fi w
      ({ r.1 with ldb := r.1.ldb.del (downloadKey w.start (getFilePathByInfo c fi)) }, r.2)) := rfl
  rw [hdef] at hsaves ⊢
  by_cases h2 : fi.offSet = -2
  · simp only [if_pos h2] at hsaves ⊢
    rcases downloadMigrated_accurate (E := E) (c := c) (asking c s fi w) h2 w with hr | ⟨hdir, hsize⟩
    · exact Or.inl (hmeasured _ hr hsaves)
    · exact Or.inr ⟨h2, hdir, hsize⟩
  · simp only [if_neg h2] at hsaves ⊢
    by_cases h0 : 0 ≤ fi.offSet
    · simp only [if_pos h0] at hsaves ⊢
      exact Or.inl (hmeasured _ (downloadSmall_accurate _ h0 w) hsaves)
    · simp only [if_neg h0] at hsaves ⊢
      exact Or.inl (hmeasured _ (downloadNormal_accurate E _ (by omega) h2 w) hsaves)

theorem not_saves_self (s : Server) : ¬ s.Saves s := by
  intro hcase
  rcases hcase with h | ⟨k, fi, hk, hne⟩ | h
  · exact h rfl
  · exact hne hk
  · exact h rfl

/-- A call that does not announce saves what is measured, or takes a directory for a file. -/
theorem downloadFromPeer_accurate {s : Server} {fi : FileInfo} {w : Download}
    (hend : (s.downloadFromPeer E c fi w).2 ≠ .newer)
    (hsaves : s.Saves (s.downloadFromPeer E c fi w).1) :
    Measured c fi w (s.downloadFromPeer E c fi w) ∨ TakesDirectory c s.disk fi w := by
  unfold downloadFromPeer at hend hsaves ⊢
  by_cases hro : c.readOnly = true
  · rw [if_pos hro] at hsaves
    exact absurd hsaves (not_saves_self s)
  rw [if_neg hro] at hend hsaves ⊢
  by_cases hout : outOfRetries c fi = true
  · rw [if_pos hout] at hsaves
    exact absurd hsaves (not_saves_self s)
  rw [if_neg hout] at hend hsaves ⊢
  rw [Bool.not_eq_true] at hro hout
  dsimp only at hend hsaves ⊢
  split at hsaves
  · exact absurd hsaves (not_saves_self s)
  rename_i hhere
  rw [if_neg hhere] at hend ⊢
  split at hsaves
  · rename_i hcheck
    rw [if_pos hcheck] at hend ⊢
    have hpath : getFilePathByInfo c { fi with retry := fi.retry + 1 } = getFilePathByInfo c fi := rfl
    rw [hpath] at hend hsaves ⊢
    cases hstat : s.disk.stat (getFilePathByInfo c fi) with
    | none =>
      simp only [hstat] at hsaves ⊢
      refine (downloadRequest_accurate hsaves).imp id fun ⟨h2, hdir, hsize⟩ => ?_
      refine ⟨h2, hsize, hro, hout, fun n hn => ?_, ?_⟩
      · rw [hstat] at hn
        cases hn
      · rw [Disk.remove_of_stat_none hstat]
        exact hdir
    | some n =>
      simp only [hstat] at hend hsaves ⊢
      split at hsaves
      · rename_i hnew
        rw [if_pos hnew] at hend
        exact absurd rfl hend
      · rename_i hold
        rw [if_neg hold]
        refine (downloadRequest_accurate (s := s.osRemove (getFilePathByInfo c fi)) hsaves).imp id
          fun ⟨h2, hdir, hsize⟩ => ⟨h2, hsize, hro, hout, fun m hm => ?_, hdir⟩
        obtain rfl := Option.some.inj (hstat.symm.trans hm)
        exact not_lt.mp hold
  · rename_i hcheck
    rw [if_neg hcheck]
    exact (downloadRequest_accurate hsaves).imp id fun h => absurd (Or.inr h.1) hcheck

theorem takesDirectory_requests {d : Disk} {fi : FileInfo} {w : Download} (h : TakesDirectory c d fi w) :
    ({ disk := d } : Server).downloadFromPeer E c fi w =
      ({ disk := (d.remove (getFilePathByInfo c fi)).getD d } : Server).downloadRequest E c
        { fi with retry := fi.retry + 1 } w := by
  have h2 : ¬ (({ fi with retry := fi.retry + 1 } : FileInfo).offSet ≠ -2 ∧ c.enableDistinctFile = true ∧
      ({ disk := d } : Server).checkFileExistByInfo c { fi with retry := fi.retry + 1 } = true) :=
    fun hx => hx.1 h.migrated
  have hpath : getFilePathByInfo c { fi with retry := fi.retry + 1 } = getFilePathByInfo c fi := rfl
  unfold downloadFromPeer
  rw [if_neg (by simp [h.writable]), if_neg (by simp [h.retries])]
  dsimp only
  rw [if_neg h2, if_pos (Or.inr h.migrated), hpath]
  cases hstat : d.stat (getFilePathByInfo c fi) with
  | none => rw [Disk.remove_of_stat_none hstat, Option.getD_none]
  | some n => exact if_neg (not_lt.mpr (h.older n hstat))

/-- A migrated file whose path leads to a directory is recorded without a byte. -/
theorem takesDirectory_saves {d : Disk} {fi : FileInfo} {w : Download} (h : TakesDirectory c d fi w) :
    let r := ({ disk := d } : Server).downloadFromPeer E c fi w
    r.2 ≠ .newer ∧ ({ disk := d } : Server).Saves r.1 ∧ ¬ Measured c fi w r := by
  set s : Server := { disk := (d.remove (getFilePathByInfo c fi)).getD d } with hs
  set fi' : FileInfo := { fi with retry := fi.retry + 1 } with hfi
  have hsize : ((asking c s fi' w).disk.stat (getFilePathByInfo c fi')).map Node.size = some fi'.size := by
    rw [show (asking c s fi' w).disk.stat (getFilePathByInfo c fi') = some .dir from h.dir, Option.map_some, hfi, h.size]
  have hrequest : s.downloadRequest E c fi' w =
      ({ (asking c s fi' w).saveFileInfoToLevelDB E fi'.md5 fi' .ldb with
          ldb := ((asking c s fi' w).saveFileInfoToLevelDB E fi'.md5 fi' .ldb).ldb.del
            (downloadKey w.start (getFilePathByInfo c fi')) }, .ignored) := by
    have hmigrated : downloadMigrated E c (asking c s fi' w) fi' w =
        ((asking c s fi' w).saveFileInfoToLevelDB E fi'.md5 fi' .ldb, .ignored) := by
      unfold downloadMigrated
      rw [if_pos hsize]
    unfold downloadRequest
    dsimp only
    rw [if_pos (show fi'.offSet = -2 from h.migrated)]
    exact congrArg (fun r : Server × FetchEnd =>
      ({ r.1 with ldb := r.1.ldb.del (downloadKey w.start (getFilePathByInfo c fi')) }, r.2)) hmigrated
  rw [takesDirectory_requests h, hrequest]
  refine ⟨by simp, Or.inr (Or.inr fun hempty => ?_), ?_⟩
  · have hput := congrArg (fun db : Store Str FileInfo => db.get (fileKey E fi')) hempty
    simp [saveFileInfoToLevelDB, hs] at hput
  · rw [Measured, if_neg (by rw [h.migrated]; decide)]
    intro hp
    obtain ⟨x, hx, -⟩ := hp
    have hdir : (fetchDisk c s.disk fi).read (getFilePathByInfo c fi) = none := by rw [Disk.read, h.dir]
    exact absurd (hdir.symm.trans hx) (by simp)

end Server

/-- On every disk, for every record and answer: what a call saves without announcing, on any
    server with that disk, is measured, exactly if it does not take a directory for the file. -/
theorem recorded_is_measured_iff (d : Disk) (fi : FileInfo) (w : Download) :
    (∀ s : Server, s.disk = d → let r := s.downloadFromPeer E c fi w
      r.2 ≠ .newer → s.Saves r.1 → Measured c fi w r) ↔ ¬ TakesDirectory c d fi w := by
  constructor
  · intro h hdir
    obtain ⟨hend, hsaves, hnot⟩ := Server.takesDirectory_saves (E := E) hdir
    exact hnot (h _ rfl hend hsaves)
  · intro hno s heq r hend hsaves
    subst heq
    exact (Server.downloadFromPeer_accurate hend hsaves).resolve_right hno

end

def folderDisk : Disk := Disk.ofFiles [("files/d/x/y".toList, "z".toList)]

def folderRecord : FileInfo :=
  { name := "x".toList, path := "files/d".toList, md5 := "m".toList, size := 4096, offSet := -2, timeStamp := 10 }

/-- The record of a migrated file of 4096 bytes is saved over a folder, without a request. -/
theorem a_folder_is_recorded_as_a_file :
    ∃ s : Server, s.disk = folderDisk ∧ let r := s.downloadFromPeer Env.plain {} folderRecord {}
      r.2 ≠ .newer ∧ s.Saves r.1 ∧ ¬ Measured {} folderRecord {} r := by
  have hfolder : folderDisk.stat (getFilePathByInfo {} folderRecord) = some .dir := by decide +kernel
  have hstays : (fetchDisk {} ((folderDisk.remove (getFilePathByInfo {} folderRecord)).getD folderDisk)
      folderRecord).stat (getFilePathByInfo {} folderRecord) = some .dir := by decide +kernel
  refine ⟨{ disk := folderDisk }, rfl, Server.takesDirectory_saves ⟨rfl, rfl, rfl, by decide, fun n hn => ?_, hstays⟩⟩
  obtain rfl := Option.some.inj (hfolder.symm.trans hn)
  decide

end GoFastdfs
