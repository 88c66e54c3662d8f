/-
  GoFastdfs.Dedup — what an upload of a known digest relies on (`upload`, `SyncFileInfo` of
  `http_upload.go`, `DownloadFromPeer` of `http_download.go`).

  An upload whose digest has a record is answered with that record, and its own file is
  removed. The record is not looked behind. A notification of a migrated file (`OffSet`
  -2) saves its record at once and fetches the file later; a fetch of a migrated file
  removes the file that is there before it asks for the new one.

  Proved: a run in which notifications of migrated files come after the file, and no step
  removes or cuts the data of a trusted record, holds the data of every record that dedup
  trusts (`dedup_is_held`). A notification ahead of its file breaks this at once
  (`a_notification_ahead_of_its_file`), and the fetch may then fail for good
  (`a_failed_migration_discards_an_upload`).
-/

import GoFastdfs.Trusted

namespace GoFastdfs

open Go (Str)

section
variable {E : Env} {c : Config}

/-! ## Fetches -/

theorem AskedFor.held {p : Pushing} {d d' : Disk} {fi : FileInfo} {w : Download} {e : FetchEnd}
    (h : AskedFor c (fetchDisk c d fi) fi w d' e) (hk : RequestKeeps c p d fi w) {u : FileInfo} (hu : p.Trusts u)
    (hd : Held c (fetchDisk c d fi) u) : Held c d' u := by
  have hd1 : Held c (tmpDisk c d fi) u := hd.grow (withFolder_grow _ _)
  -- the temporary place is not on the way to the record's data
  have hoff : ∀ data l, w.data = some data → (tmpDisk c d fi).locate (Server.tmpPath c fi) = some l →
      (tmpDisk c d fi).node l ≠ some .dir → l ∉ (tmpDisk c d fi).way (dataPath c u) := by
    intro data l hw hl hdir
    obtain ⟨n, hn, _⟩ := hd1
    exact (hk.answered data hw u hu).off_way hl hdir hn
  have hwritten : ∀ data l, w.data = some data → (tmpDisk c d fi).locate (Server.tmpPath c fi) = some l →
      (tmpDisk c d fi).node l ≠ some .dir → Held c ((tmpDisk c d fi).put l (.file data w.now)) u := by
    intro data l hw hl hdir
    exact hd1.put hdir fun _ hloc => absurd (Disk.mem_way_of_locate hloc) (hoff data l hw hl hdir)
  cases h with
  | unanswered hw => exact hd.remove (hk.unanswered hw u hu)
  | refused data d1 hw hd1' =>
    obtain rfl : d1 = tmpDisk c d fi := hd1'
    exact hd1.remove (hk.answered data hw u hu)
  | written data d1 d2 l hw hd1' hl hdir hd2 =>
    obtain rfl : d1 = tmpDisk c d fi := hd1'
    subst hd2
    refine (hwritten data l hw hl hdir).remove fun k hk' _ => ?_
    rw [Disk.locate_put hdir, hl] at hk'
    obtain rfl := Option.some.inj hk'
    exact hoff data l hw hl hdir
  | left data d1 l hw hd1' hl hdir =>
    obtain rfl : d1 = tmpDisk c d fi := hd1'
    exact hwritten data l hw hl hdir
  | stored data d1 d2 l k hw hsize hd1' hl hdir hk' hkdir hd2 =>
    obtain rfl : d1 = tmpDisk c d fi := hd1'
    subst hd2
    have herased := (hwritten data l hw hl hdir).erase (hoff data l hw hl hdir)
    refine herased.put (Disk.moved_ne_dir hdir hkdir _ _) fun ho hloc => ?_
    rw [Disk.locate_erase (Disk.put_ne_dir hdir _ _), Disk.locate_put hdir] at hloc
    exact hk.covers data hw hsize u hu ho k hk' hloc

theorem downloadMigrated_ignored {s : Server} {fi : FileInfo} (w : Download)
    (hsize : ((s.disk.stat (getFilePathByInfo c fi)).map Node.size) = some fi.size) :
    s.downloadMigrated E c fi w = (s.saveFileInfoToLevelDB E fi.md5 fi .ldb, .ignored) := if_pos hsize

theorem downloadRequest_held {p : Pushing} {s : Server} {fi : FileInfo} {w : Download} (hneg : fi.offSet < 0)
    (hk : RequestKeeps c p s.disk fi w) {u : FileInfo} (hu : p.Trusts u) (h : Held c s.disk u) :
    Held c (s.downloadRequest E c fi w).1.disk u := by
  have h0 : Held c (fetchDisk c s.disk fi) u := h.grow (fetchDisk_grow s.disk fi)
  have hasked : ∀ r : Server × FetchEnd, (r.1.disk, r.2) = askFile c (fetchDisk c s.disk fi) fi w → Held c r.1.disk u := by
    intro r hr
    have hcase := askFile_cases (c := c) (fetchDisk c s.disk fi) fi w
    rw [← hr] at hcase
    exact hcase.held hk hu h0
  rw [downloadRequest_disk]
  split
  · by_cases hsize : (((asking c s fi w).disk.stat (getFilePathByInfo c fi)).map Node.size) = some fi.size
    · rw [downloadMigrated_ignored w hsize]
      exact h0
    · exact hasked _ (downloadMigrated_asks w hsize)
  · rw [if_neg (by omega)]
    exact hasked _ (downloadNormal_asks _ fi w)

/-- A migrated file that was removed and is fetched again is not there when its folder has
    been made. -/
theorem Refetches.absent {d : Disk} {fi : FileInfo} {w : Download} (h : Refetches c d fi w) {k : Loc}
    (hl : d.locate (getFilePathByInfo c fi) = some k) (hn : d.node k = none) :
    (fetchDisk c d fi).stat (getFilePathByInfo c fi) = none := by
  have hk := (fetchDisk_grow (c := c) d fi).locate hl
  unfold Disk.stat
  rw [hk, Option.bind_some]
  cases hnode : (fetchDisk c d fi).node k with
  | none => rfl
  | some n =>
    -- only a directory can have come, and a file is not renamed to it
    have hdir : n = .dir := by
      have hgrow : Disk.DirGrow (fun _ => True) d (fetchDisk c d fi) := by
        unfold fetchDisk
        split
        · exact .refl d
        · exact Disk.mkdirs_dirGrow _ (fun _ _ => trivial) _ _
      rcases hgrow.only k n hnode with h' | ⟨h', _⟩
      · rw [hn] at h'
        cases h'
      · exact h'
    obtain ⟨data, _, _, hok, hren⟩ := h
    have hgrow := withFolder_grow (fetchDisk c d fi) (Go.pathDir (Server.tmpPath c fi))
    rcases toFile_cases (fetchDisk c d fi) (Server.tmpPath c fi) data w.now with ht | ⟨l, hl', hldir, ht⟩
    · rw [ht] at hok
      cases hok
    · rw [ht] at hren
      obtain ⟨d', hd'⟩ := Option.isSome_iff_exists.mp hren
      obtain ⟨k', hk', hkdir, _⟩ := rename_tmp hl' hldir hd'
      obtain rfl := Option.some.inj (hk'.symm.trans (hgrow.locate hk))
      exact absurd (hgrow.keeps k' n hnode) (by rw [hdir]; exact hkdir)

theorem Refetches.stored {d : Disk} {fi : FileInfo} {w : Download} (h : Refetches c d fi w) :
    (askFile c (fetchDisk c d fi) fi w).2 = .stored := by
  obtain ⟨data, hw, hsize, hok, hren⟩ := h
  obtain ⟨d', hd'⟩ := Option.isSome_iff_exists.mp hren
  unfold askFile
  rw [hw]
  simp only [hok, hsize, hd', ne_eq, not_true_eq_false, if_false, Bool.true_eq_false]

/-- A migrated file that is fetched again is back for whatever led to it. -/
theorem downloadRequest_restores {p : Pushing} {s : Server} {fi : FileInfo} {w : Download} (hoff : fi.offSet = -2)
    (hk : RequestKeeps c p s.disk fi w) (href : Refetches c s.disk fi w) {u : FileInfo} (hu : p.Trusts u)
    (hsize : 0 ≤ u.offSet → 0 < u.size) {k : Loc} (hl : s.disk.locate (getFilePathByInfo c fi) = some k)
    (hn : s.disk.node k = none) (hul : s.disk.locate (dataPath c u) = some k) :
    Held c (s.downloadRequest E c fi w).1.disk u := by
  have habsent : (((asking c s fi w).disk.stat (getFilePathByInfo c fi)).map Node.size) ≠ some fi.size := by
    have : (asking c s fi w).disk.stat (getFilePathByInfo c fi) = none := href.absent hl hn
    rw [this]
    simp
  have hcase := askFile_cases (c := c) (fetchDisk c s.disk fi) fi w
  rw [href.stored] at hcase
  obtain ⟨data, k', hw, hlen, hk', hstat⟩ := hcase.stat_stored
  have hgrow := withFolder_grow (fetchDisk c s.disk fi) (Go.pathDir (Server.tmpPath c fi))
  obtain rfl := Option.some.inj (hk'.symm.trans (hgrow.locate ((fetchDisk_grow s.disk fi).locate hl)))
  have hu' := hgrow.locate ((fetchDisk_grow (c := c) s.disk fi).locate hul)
  have hdisk : (s.downloadRequest E c fi w).1.disk = (askFile c (fetchDisk c s.disk fi) fi w).1 := by
    rw [downloadRequest_disk, if_pos hoff]
    exact congrArg Prod.fst (downloadMigrated_asks (E := E) w habsent)
  rw [hdisk]
  refine ⟨_, hstat _ hu', fun ho => ⟨hsize ho, ?_⟩⟩
  exact hk.covers data hw hlen u hu ho k' hk' hu'

/-- What a fetch records: its record, and only with the data where it leads once stored. -/
structure FetchHolds (c : Config) (s : Server) (fi : FileInfo) (s' : Server) : Prop where
  records : ∀ k v, s'.ldb.get k = some (.record v) → s.ldb.get k = some (.record v) ∨ v = fi.persist ∧ Held c s'.disk v
  queue : ∀ e ∈ s'.queueFileLog, e ∈ s.queueFileLog ∨ e.fileInfo = fi ∧ Held c s'.disk fi.persist

theorem FetchHolds.nothing {s s' : Server} (fi : FileInfo) (hldb : s'.ldb = s.ldb) (hq : s'.queueFileLog = s.queueFileLog) :
    FetchHolds c s fi s' :=
  ⟨fun _ _ h => Or.inl (hldb ▸ h), fun _ h => Or.inl (hq ▸ h)⟩

theorem FetchHolds.saved {s : Server} {fi : FileInfo} {d : Disk} (h : Held c d fi.persist) :
    FetchHolds c s fi ({ s with disk := d }.saveFileInfoToLevelDB E fi.md5 fi .ldb) := by
  refine ⟨fun k v hk => ?_, fun e he => Or.inl he⟩
  have hk : (s.ldb.put fi.md5 (.record fi.persist)).get k = some (.record v) := hk
  rw [Store.get_put] at hk
  split at hk
  · cases hk
    exact Or.inr ⟨rfl, h⟩
  · exact Or.inl hk

theorem FetchHolds.logged {s : Server} {fi : FileInfo} {d : Disk} (h : Held c d fi.persist) (name : Str) :
    FetchHolds c s fi ({ s with disk := d }.logLater fi name) := by
  refine ⟨fun k v hk => Or.inl hk, fun e he => ?_⟩
  rcases List.mem_append.mp he with he | he
  · exact Or.inl he
  · obtain rfl := List.mem_singleton.mp he
    exact Or.inr ⟨rfl, h⟩

/-- A whole file is held by its record as it is stored, if its path can be. -/
theorem held_persist {d : Disk} {fi : FileInfo} (hl : fi.Legible) (hneg : fi.offSet < 0)
    (h : d.fileExists (getFilePathByInfo c fi) = true) : Held c d fi.persist :=
  (samePlace_persist hl).held ((held_normal_iff hneg).mpr h)

theorem downloadMigrated_holds (s : Server) {fi : FileInfo} (hl : fi.Legible) (w : Download) (hoff : fi.offSet = -2) :
    FetchHolds c s fi (s.downloadMigrated E c fi w).1 := by
  have hneg : fi.offSet < 0 := by omega
  unfold Server.downloadMigrated
  split
  · rename_i hsize
    obtain ⟨n, hn, _⟩ := Option.map_eq_some_iff.mp hsize
    exact .saved (s := s) (held_persist hl hneg (by rw [Disk.fileExists, hn]; rfl))
  split
  · exact .nothing fi rfl rfl
  · dsimp only
    split
    · exact .nothing fi rfl rfl
    split
    · exact .nothing fi rfl rfl
    split
    · exact .nothing fi rfl rfl
    · rename_i d hd
      exact .saved (s := s) (held_persist hl hneg (Disk.rename_fileExists hd))

theorem downloadNormal_holds (s : Server) {fi : FileInfo} (hl : fi.Legible) (w : Download) (hneg : fi.offSet < 0) :
    FetchHolds c s fi (s.downloadNormal c fi w).1 := by
  unfold Server.downloadNormal
  split
  · exact .nothing fi rfl rfl
  · dsimp only
    split
    · exact .nothing fi rfl rfl
    split
    · exact .nothing fi rfl rfl
    split
    · exact .nothing fi rfl rfl
    · rename_i d hd
      exact .logged (s := s) (held_persist hl hneg (Disk.rename_fileExists hd)) _

/-- A merged file is written at its offset: its extent is there then, and no file is shorter
    than it was. -/
theorem downloadSmall_holds (s : Server) {fi : FileInfo} (hl : fi.Legible) (w : Download) (hoff : 0 ≤ fi.offSet) :
    FetchHolds c s fi (s.downloadSmall c fi w).1 ∧ ∀ u, Held c s.disk u → Held c (s.downloadSmall c fi w).1.disk u := by
  unfold Server.downloadSmall
  split
  · exact ⟨.nothing fi rfl rfl, fun u h => h⟩
  rename_i data _
  split
  · exact ⟨.nothing fi rfl rfl, fun u h => h⟩
  rename_i hsize
  split
  · exact ⟨.nothing fi rfl rfl, fun u h => h⟩
  · rename_i d hd
    refine ⟨.logged (s := s) ((samePlace_persist hl).held ?_) _,
      fun u h => h.longer hd fun x => (Disk.length_overwrite x _ _).1⟩
    obtain ⟨l, hloc, hdir, rfl⟩ := Disk.modify_eq_some.mp hd
    have hpath : dataPath c fi = Go.splitHead ',' (getFilePathByInfo c fi) := if_pos hoff
    refine ⟨.file _ w.now, by rw [Disk.stat_put hdir, if_pos (hpath ▸ hloc)], ?_⟩
    intro _
    have hlen := (Disk.length_overwrite ((s.disk.read (Go.splitHead ',' (getFilePathByInfo c fi))).getD [])
      ('1' :: data) fi.offSet.toNat).2
    rw [← not_not.mp hsize]
    simp only [List.length_cons] at hlen ⊢
    omega

theorem downloadRequest_holds (s : Server) {fi : FileInfo} (hl : fi.Legible) (w : Download) :
    FetchHolds c s fi (s.downloadRequest E c fi w).1 := by
  have hinner : ∀ r : Server × FetchEnd, FetchHolds c (asking c s fi w) fi r.1 →
      FetchHolds c s fi { r.1 with ldb := r.1.ldb.del (Server.downloadKey w.start (getFilePathByInfo c fi)) } := by
    intro r h
    refine ⟨fun k v hk => ?_, h.queue⟩
    obtain ⟨hne, hk⟩ := Store.get_del_some hk
    refine (h.records k v hk).imp_left fun hk => ?_
    have hk : (s.ldb.put (Server.downloadKey w.start (getFilePathByInfo c fi)) .empty).get k = some (.record v) := hk
    rwa [Store.get_put_ne _ _ hne] at hk
  unfold Server.downloadRequest
  dsimp only
  split
  · rename_i hoff
    exact hinner _ (downloadMigrated_holds (asking c s fi w) hl w hoff)
  split
  · rename_i hoff
    exact hinner _ (downloadSmall_holds (asking c s fi w) hl w hoff).1
  · rename_i hoff
    exact hinner _ (downloadNormal_holds (asking c s fi w) hl w (by omega))

/-! ### One fetch -/

theorem RequestKeeps.retried {p : Pushing} {d : Disk} {fi : FileInfo} {w : Download} (h : RequestKeeps c p d fi w)
    (n : Int) : RequestKeeps c p d { fi with retry := n } w := ⟨h.unanswered, h.answered, h.covers⟩

/-- A migrated file that was removed: it is fetched again, or no trusted record named it. -/
theorem removed_held {p : Pushing} {fi : FileInfo} {w : Download} {n : Node} (hoff : fi.offSet = -2)
    (hn : p.server.disk.stat (getFilePathByInfo c fi) = some n)
    (hk : RequestKeeps c p (p.server.osRemove (getFilePathByInfo c fi)).disk fi w)
    (hgone : SparesAll c p p.server.disk (getFilePathByInfo c fi) ∨
      n ≠ .dir ∧ Refetches c (p.server.osRemove (getFilePathByInfo c fi)).disk fi w)
    {u : FileInfo} (hu : p.Trusts u) (h : Held c p.server.disk u) :
    Held c ((p.server.osRemove (getFilePathByInfo c fi)).downloadRequest E c fi w).1.disk u := by
  have hneg : fi.offSet < 0 := by omega
  rcases hgone with hspares | ⟨hfile, href⟩
  · exact downloadRequest_held hneg hk hu (h.remove (hspares u hu))
  obtain ⟨l, hl, hnode⟩ := Disk.stat_eq_some.mp hn
  have hdir : p.server.disk.node l ≠ some .dir := by
    rw [hnode]
    simpa using hfile
  have hdisk : (p.server.osRemove (getFilePathByInfo c fi)).disk = p.server.disk.erase l := by
    cases n with
    | dir => exact absurd rfl hfile
    | file data t => simp only [Server.osRemove, Disk.remove_file hl hnode, Option.getD_some]
  by_cases hway : l ∈ p.server.disk.way (dataPath c u)
  · -- the record's data was the file removed
    obtain ⟨m, hm, hfit⟩ := h
    obtain ⟨k, hul, hkn⟩ := Disk.stat_eq_some.mp hm
    have hul := Disk.locate_eq_of_file hdir hul hway
    have hsize : 0 ≤ u.offSet → 0 < u.size := by
      intro ho
      cases m with
      | dir => exact absurd (show u.offSet < 0 from hfit) (by omega)
      | file x t => exact (hfit ho).1
    refine downloadRequest_restores (k := l) hoff hk href hu hsize ?_ ?_ ?_
    · rw [hdisk, Disk.locate_erase hdir]
      exact hl
    · rw [hdisk, Disk.node_erase (Disk.ne_root_of_node hdir), if_pos rfl]
    · rw [hdisk, Disk.locate_erase hdir]
      exact hul
  · refine downloadRequest_held hneg hk hu ?_
    rw [hdisk]
    exact h.erase hway

theorem fetch_held (hdist : c.enableDistinctFile = true) {p : Pushing} {fi : FileInfo} {w : Download}
    (hk : c.readOnly = false → Server.outOfRetries c fi = false → FetchKeeps c p fi w) {u : FileInfo} (hu : p.Trusts u)
    (h : Held c p.server.disk u) : Held c (p.server.downloadFromPeer E c fi w).1.disk u := by
  unfold Server.downloadFromPeer
  by_cases hro : c.readOnly = true
  · rw [if_pos hro]
    exact h
  rw [if_neg hro]
  by_cases hretry : Server.outOfRetries c fi = true
  · rw [if_pos hretry]
    exact h
  rw [if_neg hretry]
  have hk := hk (by simpa using hro) (by simpa using hretry)
  dsimp only
  by_cases hexist : fi.offSet ≠ -2 ∧ c.enableDistinctFile = true ∧
      p.server.checkFileExistByInfo c { fi with retry := fi.retry + 1 } = true
  · rw [if_pos hexist]
    exact h
  rw [if_neg hexist]
  by_cases hoff : fi.offSet = -2
  · rw [if_pos (Or.inr hoff)]
    have hpath : getFilePathByInfo c { fi with retry := fi.retry + 1 } = getFilePathByInfo c fi := rfl
    rw [hpath]
    cases hn : p.server.disk.stat (getFilePathByInfo c fi) with
    | none => exact downloadRequest_held (by rw [hoff]; decide) ((hk.absent hoff hn).retried _) hu h
    | some n =>
      dsimp only
      split
      · rw [Server.postFileToPeer_disk]
        exact h
      · rename_i htime
        obtain ⟨hreq, hgone⟩ := hk.present hoff n hn (by omega)
        have hoff' : ({ fi with retry := fi.retry + 1 } : FileInfo).offSet = -2 := hoff
        exact removed_held hoff' hn (hreq.retried _) hgone hu h
  · rw [if_neg (by simp [hdist, hoff])]
    by_cases hpos : 0 ≤ fi.offSet
    · have h0 : Held c (asking c p.server { fi with retry := fi.retry + 1 } w).disk u := h.grow (fetchDisk_grow _ _)
      rw [downloadRequest_disk, if_neg hoff, if_pos hpos]
      have hpos' : 0 ≤ ({ fi with retry := fi.retry + 1 } : FileInfo).offSet := hpos
      have hl : ({ fi with retry := fi.retry + 1 } : FileInfo).Legible := hk.legible
      exact (downloadSmall_holds _ hl w hpos').2 u h0
    · have hex : p.server.checkFileExistByInfo c fi = false := by
        cases he : p.server.checkFileExistByInfo c fi with
        | false => rfl
        | true => exact absurd ⟨hoff, hdist, he⟩ hexist
      exact downloadRequest_held (by show fi.offSet < 0; omega) ((hk.normal (by omega) hoff hex).retried _) hu h

/-! ## Pushes -/

/-- What a push saves: the record again, with more peers and with its size, as it is stored. -/
structure Posted (s : Server) (fi : FileInfo) (r : Server × FileInfo × List PeerEvent) : Prop where
  same : SamePlace r.2.1 fi
  records : ∀ k v, r.1.ldb.get k = some (.record v) → s.ldb.get k = some (.record v) ∨ SamePlace v fi.persist
  queue : ∀ e ∈ r.1.queueFileLog, e ∈ s.queueFileLog ∨ e.fileName = CONST_Md5_ERROR_FILE_NAME

theorem postToPeer_posted (s : Server) (entry fi : FileInfo) (peer : Str) (a : PeerAnswer) :
    Posted s fi (s.postToPeer E c entry fi peer a) := by
  have hout := Server.postToPeer_outcome (E := E) (c := c) s entry fi peer a
  generalize s.postToPeer E c entry fi peer a = r at hout ⊢
  cases hout with
  | passed => exact ⟨.refl fi, fun _ _ h => Or.inl h, fun _ h => Or.inl h⟩
  | noted n e _ _ =>
    have hsame := samePlace_sized fi n
    refine ⟨⟨hsame.md5, hsame.fullpath, hsame.offSet, hsame.size⟩, fun k v hk => ?_, fun _ h => Or.inl h⟩
    have hk : (s.ldb.put (Server.sized fi n).md5 _).get k = some (.record v) := hk
    rw [Store.get_put] at hk
    split at hk
    · cases hk
      have hnoted : SamePlace { Server.sized fi n with peers := (Server.sized fi n).peers ++ [peer] } fi :=
        ⟨hsame.md5, hsame.fullpath, hsame.offSet, hsame.size⟩
      exact Or.inr hnoted.persist
    · exact Or.inl hk
  | failed n retry q e _ _ =>
    have hsame := samePlace_sized fi n
    refine ⟨⟨hsame.md5, hsame.fullpath, hsame.offSet, hsame.size⟩, fun _ _ h => Or.inl h, fun e he => ?_⟩
    rcases List.mem_append.mp he with he | he
    · exact Or.inl he
    · obtain rfl := List.mem_singleton.mp he
      exact Or.inr rfl

theorem postLoop_posted (entry : FileInfo) (l : List (Str × PeerAnswer)) : ∀ (s : Server) (fi : FileInfo),
    Posted s fi (Server.postLoop E c entry s fi l) := by
  induction l with
  | nil =>
    intro s fi
    exact ⟨.refl fi, fun _ _ h => Or.inl h, fun _ h => Or.inl h⟩
  | cons x l ih =>
    intro s fi
    have h := postToPeer_posted (E := E) (c := c) s entry fi x.1 x.2
    have h' := ih (s.postToPeer E c entry fi x.1 x.2).1 (s.postToPeer E c entry fi x.1 x.2).2.1
    refine ⟨h'.same.trans h.same, fun k v hk => ?_, fun e he => ?_⟩
    · rcases h'.records k v hk with hk | hv
      · exact h.records k v hk
      · exact Or.inr (hv.trans h.same.persist)
    · exact (h'.queue e he).elim (h.queue e) Or.inr

/-! ## Steps -/

/-- What a step trusts afterwards: what was trusted before, what is held, and nothing that
    is trusted loses its data. -/
theorem allHeld_of {p p' : Pushing} (hall : p.AllHeld c)
    (hdisk : ∀ u, p.Trusts u → Held c p.server.disk u → Held c p'.server.disk u)
    (htrust : ∀ u, p'.Trusts u → (∃ v, p.Trusts v ∧ SamePlace u v) ∨ Held c p'.server.disk u) : p'.AllHeld c := by
  intro u hu
  rcases htrust u hu with ⟨v, hv, hs⟩ | h
  · exact hs.held (hdisk v hv (hall v hv))
  · exact h

theorem Pushing.Trusts.of {p p' : Pushing} {u : FileInfo} (h : p'.Trusts u) {P : FileInfo → Prop}
    (hldb : ∀ k u, u.md5 ≠ [] → p'.server.ldb.get k = some (.record u) →
      (∃ k, p.server.ldb.get k = some (.record u)) ∨ P u)
    (hq : ∀ v, v.md5 ≠ [] → ⟨v, CONST_FILE_Md5_FILE_NAME⟩ ∈ p'.server.queueFileLog →
      ⟨v, CONST_FILE_Md5_FILE_NAME⟩ ∈ p.server.queueFileLog ∨ P v.persist)
    (hpost : ∀ v, v.md5 ≠ [] → v ∈ p'.posting → v ∈ p.posting ∨ P v.persist) : p.Trusts u ∨ P u := by
  obtain ⟨hne, ⟨k, hk⟩ | ⟨v, hmem | hmem, rfl⟩⟩ := h
  · exact (hldb k u hne hk).imp_left fun h => ⟨hne, Or.inl h⟩
  · exact (hq v hne hmem).imp_left fun h => ⟨hne, Or.inr ⟨v, Or.inl h, rfl⟩⟩
  · exact (hpost v hne hmem).imp_left fun h => ⟨hne, Or.inr ⟨v, Or.inr h, rfl⟩⟩

theorem allHeld_upload (hdist : c.enableDistinctFile = true) {p : Pushing} (hall : p.AllHeld c)
    {r : UploadRequest} {w : UploadDraw}
    (hk : ∀ header data fi, uploadForm E c r w.stamp = .ok (header, data, fi) → UploadKeeps E c p r w header data fi) :
    (p.upload E c r w).AllHeld c := by
  obtain ⟨hown, hothers⟩ := upload_held hdist hk
  refine allHeld_of hall hothers fun u hu => ?_
  have hposting : ∀ fi, (p.server.upload E c r w).1.recorded = some fi → (p.upload E c r w).posting = fi :: p.posting := by
    intro fi h
    show (p.server.upload E c r w).1.recorded.toList ++ p.posting = fi :: p.posting
    rw [h]
    rfl
  rcases upload_databases (E := E) (c := c) p.server r w with ⟨d, domain, hnone, hs⟩ | ⟨fi, d, domain, hrec, hne, _, _, hs⟩
  · refine Or.inl ⟨u, ?_, .refl u⟩
    have hp : p.upload E c r w = ⟨{ p.server with disk := d, downloadDomain := domain }, p.posting⟩ := by
      show Pushing.mk (p.server.upload E c r w).2 ((p.server.upload E c r w).1.recorded.toList ++ p.posting) = _
      rw [hnone, hs]
      rfl
    rw [hp] at hu
    exact hu
  · have hheld := hown fi hrec
    have hu' : p.Trusts u ∨ u = fi.persist := by
      refine hu.of (P := (· = fi.persist)) (fun k u _ hk => ?_) (fun v _ hmem => ?_) fun v _ hmem => ?_
      · have hk : (p.server.upload E c r w).2.ldb.get k = some (.record u) := hk
        rw [hs] at hk
        have hk := (congrArg (Store.get · k) (Server.saveFileMd5Log_files_ldb E { p.server with disk := d } hne)).symm.trans hk
        rcases Store.get_put_put_some hk with ⟨_, hv⟩ | hk
        · cases hv
          exact Or.inr rfl
        · exact Or.inl ⟨k, hk⟩
      · have hmem : _ ∈ (p.server.upload E c r w).2.queueFileLog := hmem
        rw [hs] at hmem
        rw [show ({ ({ p.server with disk := d } : Server).saveFileMd5Log E fi CONST_FILE_Md5_FILE_NAME with
          downloadDomain := domain } : Server).queueFileLog = p.server.queueFileLog from
          Server.saveFileMd5Log_queue E _ fi _] at hmem
        exact Or.inl hmem
      · rw [hposting fi hrec] at hmem
        rcases List.mem_cons.mp hmem with rfl | hmem
        · exact Or.inr rfl
        · exact Or.inl hmem
    rcases hu' with hu' | rfl
    · exact Or.inl ⟨u, hu', .refl u⟩
    · exact Or.inr hheld

theorem allHeld_syncFileInfo {p : Pushing} (hall : p.AllHeld c) {fi : FileInfo} (host : Str)
    (hk : fi.offSet = -2 → fi.md5 ≠ [] → p.server.disk.fileExists (getFilePathByInfo c fi.persist) = true) :
    (p.syncFileInfo E c fi host).AllHeld c := by
  have hdisk : (p.syncFileInfo E c fi host).server.disk = p.server.disk := by
    simp only [Pushing.syncFileInfo, Server.syncFileInfo, Server.appendToDownloadQueue]
    split <;> rfl
  refine allHeld_of hall (fun u _ h => hdisk ▸ h) fun u hu => ?_
  have hu' : p.Trusts u ∨ Held c p.server.disk u := by
    simp only [Pushing.syncFileInfo, Server.syncFileInfo, Server.appendToDownloadQueue] at hu
    split at hu
    · rename_i hoff
      refine hu.of (fun k u hne hk' => ?_) (fun _ _ h => Or.inl h) fun _ _ h => Or.inl h
      have hk' : (p.server.ldb.put fi.md5 (.record fi.persist)).get k = some (.record u) := hk'
      rw [Store.get_put] at hk'
      split at hk'
      · cases hk'
        have hneg : fi.persist.offSet < 0 := by
          rw [FileInfo.persist_offSet, hoff]
          decide
        exact Or.inr ((held_normal_iff hneg).mpr (hk hoff hne))
      · exact Or.inl ⟨k, hk'⟩
    · refine hu.of (fun k _ _ h => Or.inl ⟨k, h⟩) (fun _ _ hmem => ?_) fun _ _ h => Or.inl h
      rcases List.mem_append.mp hmem with hmem | hmem
      · exact Or.inl hmem
      · have := (FileLog.mk.inj (List.mem_singleton.mp hmem)).2
        exact absurd this (by decide)
  rcases hu' with hu' | h
  · exact Or.inl ⟨u, hu', .refl u⟩
  · exact Or.inr (hdisk ▸ h)

theorem allHeld_post {p : Pushing} (hall : p.AllHeld c) {fi : FileInfo} (answer : Nat → PeerAnswer)
    (hk : ∃ v ∈ p.posting, SamePlace fi v) : (p.post E c fi answer).AllHeld c := by
  obtain ⟨w, hw, hsame⟩ := hk
  have hdisk : (p.post E c fi answer).server.disk = p.server.disk := Server.postFileToPeer_disk _ _ _
  have h : Posted p.server fi (p.server.postFileToPeer E c fi answer) := postLoop_posted _ _ _ _
  refine allHeld_of hall (fun u _ hu => hdisk ▸ hu) fun u hu => ?_
  have hu' : p.Trusts u ∨ u.md5 ≠ [] ∧ SamePlace u fi.persist := by
    refine hu.of (P := fun u => u.md5 ≠ [] ∧ SamePlace u fi.persist) (fun k u hne hk => ?_) (fun v _ hmem => ?_)
      fun _ _ h => Or.inl h
    · exact (h.records k u hk).imp (fun h => ⟨k, h⟩) fun h => ⟨hne, h⟩
    · rcases h.queue _ hmem with hmem | hname
      · exact Or.inl hmem
      · exact absurd hname.symm errorName_ne.1
  rcases hu' with hu' | ⟨hne, hs⟩
  · exact Or.inl ⟨u, hu', .refl u⟩
  · have hu5 : u.md5 = w.md5 := hs.md5.trans hsame.md5
    exact Or.inl ⟨w.persist, ⟨hu5 ▸ hne, Or.inr ⟨w, Or.inr hw, rfl⟩⟩, hs.trans hsame.persist⟩

theorem downloadRequest_ne_newer (s : Server) (fi : FileInfo) (w : Download) :
    (s.downloadRequest E c fi w).2 ≠ .newer := by
  obtain ⟨d, r, hr, hrequest⟩ := Server.downloadRequest_answered (E := E) (c := c) s fi w
  rw [hrequest]
  cases hr with
  | requeued _ _ _ hne | failed _ _ _ hne => exact hne
  | present | recorded | logged => exact FetchEnd.noConfusion

/-- What a fetch saves: its record with its data, or the record of a migrated file that is
    newer here. -/
theorem downloadFromPeer_saves (hdist : c.enableDistinctFile = true) (s : Server) {fi : FileInfo} (w : Download)
    (hl : c.readOnly = false → Server.outOfRetries c fi = false → fi.Legible) :
    ((s.downloadFromPeer E c fi w).2 ≠ .newer ∧
      FetchHolds c s { fi with retry := fi.retry + 1 } (s.downloadFromPeer E c fi w).1) ∨
    (fi.offSet = -2 ∧ fi.Legible ∧ s.disk.fileExists (getFilePathByInfo c fi) = true ∧ ∃ fi', SamePlace fi' fi ∧
      (s.downloadFromPeer E c fi w).1 = (s.postFileToPeer E c fi' w.answer).1) := by
  unfold Server.downloadFromPeer
  by_cases hro : c.readOnly = true
  · rw [if_pos hro]
    exact Or.inl ⟨by simp, .nothing _ rfl rfl⟩
  rw [if_neg hro]
  by_cases hretry : Server.outOfRetries c fi = true
  · rw [if_pos hretry]
    exact Or.inl ⟨by simp, .nothing _ rfl rfl⟩
  rw [if_neg hretry]
  have hl : ({ fi with retry := fi.retry + 1 } : FileInfo).Legible := hl (by simpa using hro) (by simpa using hretry)
  dsimp only
  by_cases hexist : fi.offSet ≠ -2 ∧ c.enableDistinctFile = true ∧
      s.checkFileExistByInfo c { fi with retry := fi.retry + 1 } = true
  · rw [if_pos hexist]
    exact Or.inl ⟨by simp, .nothing _ rfl rfl⟩
  rw [if_neg hexist]
  by_cases hoff : fi.offSet = -2
  · rw [if_pos (Or.inr hoff)]
    have hpath : getFilePathByInfo c { fi with retry := fi.retry + 1 } = getFilePathByInfo c fi := rfl
    rw [hpath]
    cases hn : s.disk.stat (getFilePathByInfo c fi) with
    | none => exact Or.inl ⟨downloadRequest_ne_newer _ _ _, downloadRequest_holds s hl w⟩
    | some n =>
      dsimp only
      split
      · exact Or.inr ⟨hoff, hl, by rw [Disk.fileExists, hn]; rfl,
          { fi with retry := fi.retry + 1, timeStamp := n.modTime w.now }, ⟨rfl, rfl, rfl, fun _ => rfl⟩, rfl⟩
      · have h := downloadRequest_holds (E := E) (c := c) (s.osRemove (getFilePathByInfo c fi)) hl w
        exact Or.inl ⟨downloadRequest_ne_newer _ _ _, h.records, h.queue⟩
  · rw [if_neg (by simp [hdist, hoff])]
    exact Or.inl ⟨downloadRequest_ne_newer _ _ _, downloadRequest_holds s hl w⟩

theorem allHeld_fetch (hdist : c.enableDistinctFile = true) {p : Pushing} (hall : p.AllHeld c) {fi : FileInfo} {w : Download}
    (hk : c.readOnly = false → Server.outOfRetries c fi = false → FetchKeeps c p fi w) :
    (p.fetch E c fi w).AllHeld c := by
  refine allHeld_of hall (fun u hu h => fetch_held hdist hk hu h) fun u hu => ?_
  have hdisk : (p.fetch E c fi w).server.disk = (p.server.downloadFromPeer E c fi w).1.disk := rfl
  have hlegible : c.readOnly = false → Server.outOfRetries c fi = false → fi.Legible :=
    fun hro hretry => (hk hro hretry).legible
  rcases downloadFromPeer_saves (E := E) hdist p.server w hlegible with ⟨hend, hf⟩ | ⟨hoff, hl, hex, fi', hsame, hpost⟩
  · have hu' : p.Trusts u ∨ Held c (p.server.downloadFromPeer E c fi w).1.disk u := by
      refine hu.of (fun k u _ hk => ?_) (fun v _ hmem => ?_) fun v _ hmem => ?_
      · exact (hf.records k u hk).imp (fun hk => ⟨k, hk⟩) fun h => h.2
      · refine (hf.queue _ hmem).imp_right fun h => ?_
        obtain ⟨rfl, h⟩ := h
        exact h
      · have hnil : (if (p.server.downloadFromPeer E c fi w).2 = .newer then [fi] else []) ++ p.posting = p.posting := by
          rw [if_neg hend, List.nil_append]
        exact Or.inl (hnil ▸ hmem)
    rcases hu' with hu' | h
    · exact Or.inl ⟨u, hu', .refl u⟩
    · exact Or.inr h
  · -- the record of a newer file is pushed, and the file is here
    have hposted : Posted p.server fi' (p.server.postFileToPeer E c fi' w.answer) := postLoop_posted _ _ _ _
    have hu' : p.Trusts u ∨ SamePlace u fi.persist := by
      refine hu.of (P := (SamePlace · fi.persist)) (fun k u _ hk => ?_) (fun v _ hmem => ?_) fun v _ hmem => ?_
      · have hk : (p.server.downloadFromPeer E c fi w).1.ldb.get k = some (.record u) := hk
        rw [hpost] at hk
        exact (hposted.records k u hk).imp (fun h => ⟨k, h⟩) fun h => h.trans hsame.persist
      · have hmem : _ ∈ (p.server.downloadFromPeer E c fi w).1.queueFileLog := hmem
        rw [hpost] at hmem
        rcases hposted.queue _ hmem with hmem | hname
        · exact Or.inl hmem
        · exact absurd hname.symm errorName_ne.1
      · have hmem : v ∈ (if (p.server.downloadFromPeer E c fi w).2 = .newer then [fi] else []) ++ p.posting := hmem
        rcases List.mem_append.mp hmem with hmem | hmem
        · split at hmem
          · obtain rfl := List.mem_singleton.mp hmem
            exact Or.inr (.refl v.persist)
          · cases hmem
        · exact Or.inl hmem
    rcases hu' with hu' | hs
    · exact Or.inl ⟨u, hu', .refl u⟩
    · refine Or.inr (hs.held ?_)
      rw [hdisk, hpost, Server.postFileToPeer_disk]
      exact held_persist hl (by omega) hex

theorem allHeld_consumerLog {p : Pushing} (hall : p.AllHeld c) : (p.consumerLog E).AllHeld c := by
  have hdisk : (p.consumerLog E).server.disk = p.server.disk := Server.consumerLog_disk E p.server
  refine allHeld_of hall (fun u _ h => hdisk ▸ h) fun u hu => Or.inl ?_
  simp only [Pushing.consumerLog, Server.consumerLog] at hu
  split at hu
  · exact ⟨u, hu, .refl u⟩
  rename_i e rest hqueue
  have hrest : ∀ x ∈ rest, x ∈ p.server.queueFileLog := fun x hx => hqueue ▸ List.mem_cons_of_mem _ hx
  have hu' : p.Trusts u ∨ u = e.fileInfo.persist ∧ e.fileName = CONST_FILE_Md5_FILE_NAME ∧ e.fileInfo.md5 ≠ [] := by
    refine hu.of (P := fun u => u = e.fileInfo.persist ∧ e.fileName = CONST_FILE_Md5_FILE_NAME ∧ e.fileInfo.md5 ≠ [])
      (fun k u _ hk => ?_) (fun _ _ hmem => ?_) fun _ _ h => Or.inl h
    · rcases Server.saveFileMd5Log_record E hk with ⟨hname, hmd5, _, hv⟩ | ⟨hk, _⟩
      · exact Or.inr ⟨hv, hname, hmd5⟩
      · exact Or.inl ⟨k, hk⟩
    · rw [Server.saveFileMd5Log_queue] at hmem
      exact Or.inl (hrest _ hmem)
  rcases hu' with hu' | ⟨rfl, hname, hmd5⟩
  · exact ⟨u, hu', .refl u⟩
  · refine ⟨e.fileInfo.persist, ⟨hmd5, Or.inr ⟨e.fileInfo, Or.inl ?_, rfl⟩⟩, .refl _⟩
    rw [hqueue, ← hname]
    exact List.mem_cons_self

theorem allHeld_step (hdist : c.enableDistinctFile = true) {p p' : Pushing} (h : DedupStep E c p p') (hall : p.AllHeld c) :
    p'.AllHeld c := by
  cases h with
  | upload r w hk => exact allHeld_upload hdist hall hk
  | syncFileInfo fi host hk => exact allHeld_syncFileInfo hall host hk
  | fetch fi w hk => exact allHeld_fetch hdist hall hk
  | consumerLog => exact allHeld_consumerLog hall
  | post fi answer hk => exact allHeld_post hall answer hk

theorem allHeld_run (hdist : c.enableDistinctFile = true) {p p' : Pushing}
    (hrun : Relation.ReflTransGen (DedupStep E c) p p') (hall : p.AllHeld c) : p'.AllHeld c := by
  induction hrun with
  | refl => exact hall
  | tail _ hstep ih => exact allHeld_step hdist hstep ih

theorem trusts_fresh (d : Disk) (u : FileInfo) : ¬ (⟨Server.fresh d, []⟩ : Pushing).Trusts u := by
  intro hu
  obtain ⟨_, ⟨k, hk⟩ | ⟨v, hmem | hmem, _⟩⟩ := hu
  · have hk : (∅ : Store Str Value).get k = some (.record u) := hk
    rw [Store.get_empty] at hk
    cases hk
  · cases hmem
  · cases hmem

theorem allHeld_fresh (d : Disk) : (⟨Server.fresh d, []⟩ : Pushing).AllHeld c := fun u hu => absurd hu (trusts_fresh d u)

theorem upload_known {p : Pushing} {r : UploadRequest} {w : UploadDraw} {v : FileInfo} {result : FileResult}
    (h : (p.server.upload E c r w).1 = .known v result) : p.Trusts v := by
  unfold Server.upload at h
  split at h
  · cases h
  split at h
  · cases h
  rename_i fi d _
  unfold Server.recordUpload at h
  split at h
  · rename_i v' hv
    cases h
    unfold Server.distinctRecord at hv
    split at hv
    · obtain ⟨hget, hne⟩ := Option.filter_eq_some_iff.mp hv
      exact ⟨by simpa using hne, Or.inl ⟨_, Server.getFileInfo_eq_some.mp hget⟩⟩
    · cases hv
  split at h
  · cases h
  split at h
  · cases h
  dsimp only at h
  split at h
  · cases h
  · split at h
    · cases h
    · cases h

/-- Where every step keeps to what is asked of it, an upload that is taken for known relies
    on data that is there, and leaves it there if it keeps to it too. -/
theorem dedup_is_held (hdist : c.enableDistinctFile = true) {p0 p : Pushing} (h0 : p0.AllHeld c)
    (hrun : Relation.ReflTransGen (DedupStep E c) p0 p) {r : UploadRequest} {w : UploadDraw} {v : FileInfo}
    {result : FileResult} (hknown : (p.server.upload E c r w).1 = .known v result) :
    Held c p.server.disk v ∧
      ((∀ header data fi, uploadForm E c r w.stamp = .ok (header, data, fi) → UploadKeeps E c p r w header data fi) →
        Held c (p.server.upload E c r w).2.disk v) := by
  have hall := allHeld_run hdist hrun h0
  have htrust := upload_known hknown
  exact ⟨hall v htrust, fun hk => (upload_held hdist hk).2 v htrust (hall v htrust)⟩

/-- A notification of a migrated file that is not there yet makes its digest known. -/
theorem a_notification_ahead_of_its_file (hdist : c.enableDistinctFile = true) (p : Pushing) {fi : FileInfo} (host : Str)
    (hoff : fi.offSet = -2) (hmd5 : fi.md5 ≠ []) (habsent : p.server.disk.fileExists (getFilePathByInfo c fi.persist) = false) :
    (p.syncFileInfo E c fi host).server.distinctRecord c fi.md5 = some fi.persist ∧
      ¬ Held c (p.syncFileInfo E c fi host).server.disk fi.persist := by
  have hs : (p.syncFileInfo E c fi host).server =
      (p.server.saveFileInfoToLevelDB E fi.md5 fi .ldb).appendToDownloadQueue fi := by
    simp only [Pushing.syncFileInfo, Server.syncFileInfo, if_pos hoff]
  rw [hs]
  constructor
  · have hget : ((p.server.saveFileInfoToLevelDB E fi.md5 fi .ldb).appendToDownloadQueue fi).getFileInfoFromLevelDB fi.md5 =
        some fi.persist := Server.getFileInfo_eq_some.mpr (Store.get_put_self p.server.ldb fi.md5 _)
    rw [Server.distinctRecord, if_pos hdist, hget]
    exact Option.filter_eq_some_iff.mpr ⟨rfl, decide_eq_true hmd5⟩
  · have hneg : fi.persist.offSet < 0 := by
      show fi.offSet < 0
      omega
    rw [held_normal_iff hneg]
    show ¬ p.server.disk.fileExists (getFilePathByInfo c fi.persist) = true
    simp [habsent]

end

/-! ## Fixed inputs -/

def migratedHello : FileInfo :=
  { name := "m.txt".toList, path := "files/default".toList, md5 := Go.md5 "hello".toList, size := 5, offSet := -2 }

/-- The peer does not answer the fetch. `hello` uploaded then is taken for known and removed
    again, and is not on the disk at all. -/
theorem a_failed_migration_discards_an_upload :
    let start : Pushing := ⟨Server.fresh { cwd := [], nodes := ∅ }, []⟩
    let p := (start.syncFileInfo Env.plain uploadConfig migratedHello []).fetch Env.plain uploadConfig migratedHello {}
    let e := p.server.upload Env.plain uploadConfig helloUpload .sample
    e.1 = .known migratedHello (buildFileResult uploadConfig [] migratedHello (some [])).1 ∧
      e.2.disk.fileExists (getFilePathByInfo uploadConfig migratedHello) = false ∧
      e.2.disk.read "files/default/19700101/00/00/a.txt".toList = none := by
  decide +kernel

/-- The announcement of `hello` as a migrated file, where it was uploaded. -/
def announcedHello : FileInfo :=
  { name := "a.txt".toList, path := "files/default/19700101/00/00".toList,
    md5 := Go.md5 "hello".toList, size := 5, offSet := -2 }

def helloMigrated : Pushing :=
  ((⟨Server.fresh { cwd := [], nodes := ∅ }, []⟩ : Pushing).upload
    Env.plain uploadConfig helloUpload .sample).syncFileInfo Env.plain
    uploadConfig announcedHello []

/-- `hello` uploaded, announced and uploaded again: the second upload relies on the announced
    record, whose file is that of the first. -/
theorem a_second_hello_is_held : Held uploadConfig helloMigrated.server.disk announcedHello := by
  have hknown : (helloMigrated.server.upload Env.plain uploadConfig helloUpload .sample).1 =
      .known announcedHello (buildFileResult uploadConfig [] announcedHello (some [])).1 := by decide +kernel
  have hupload : ∀ header data fi, uploadForm Env.plain uploadConfig helloUpload UploadDraw.sample.stamp =
      .ok (header, data, fi) →
      UploadKeeps Env.plain uploadConfig ⟨Server.fresh { cwd := [], nodes := ∅ }, []⟩ helloUpload .sample header data fi := by
    intro header data fi hform
    obtain ⟨hfile, rfl⟩ := uploadForm_ok _ _ hform
    cases hfile
    refine ⟨fun u hu => absurd hu (trusts_fresh _ u), fun _ _ _ _ => ⟨⟨by decide, by decide +kernel⟩,
      Or.inl (by decide +kernel)⟩,
      fun _ _ _ _ _ => by decide +kernel, fun _ _ _ _ _ _ u hu => absurd hu (trusts_fresh _ u), fun _ _ _ _ hm => ?_⟩
    simp [merges, uploadConfig] at hm
  refine (dedup_is_held (E := Env.plain) rfl (allHeld_fresh { cwd := [], nodes := ∅ })
    (.tail (.single (.upload _ helloUpload .sample hupload)) (.syncFileInfo _ announcedHello [] fun _ _ => ?_)) hknown).1
  decide +kernel

end GoFastdfs
