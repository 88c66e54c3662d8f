/-
  GoFastdfs.LocalCopy — what a fetch that fails leaves of the file that was there
  (`DownloadFromPeer` of `http_download.go`).

  A fetch writes beside the file's place and renames, so a normal file stays until the new
  one is complete. Without `EnableDistinctFile`, and for a migrated file (`OffSet` -2), the
  file that is there is removed first if it is not newer than the record; the request comes
  after. A call that was sent back to the queue may be the last one that its retries allow.

  Proved: a call that neither stores a file nor finds the one here newer leaves the file and
  the record of its digest as they were exactly if it gave up before the removal, or was one
  of a distinct normal file and what can be removed at the temporary path is not on the way
  to the file (`failed_fetch_keeps_iff`). Past the removal the file is lost whatever the
  peer answers (`a_failed_refetch_loses_the_file`).
-/

import GoFastdfs.Redelivery

namespace GoFastdfs

open Go (Str)

variable (E : Env) (c : Config)

/-- What can be removed at the temporary path, with its folder made if the peer answers, is
    not on the way to the file. -/
def TmpSpares (d : Disk) (fi : FileInfo) (w : Download) : Prop :=
  (if w.data = none then fetchDisk c d fi else tmpDisk c d fi).Spares (Server.tmpPath c fi) (getFilePathByInfo c fi)

/-- When a call that fails leaves the file `data` at the record's path and the record of its
    digest alone. -/
def KeepsLocal (s : Server) (fi : FileInfo) (w : Download) (data : Str) : Prop :=
  c.readOnly = true ∨ Server.outOfRetries c fi = true ∨
    c.enableDistinctFile = true ∧ fi.offSet = -1 ∧
      ((data.length : Int) = fi.size ∨
        TmpSpares c s.disk fi w ∧
          (fi.md5 = Server.downloadKey w.start (getFilePathByInfo c fi) → s.getFileInfoFromLevelDB fi.md5 = none))

section
variable {E c}

/-! ## Removing -/

namespace Disk

theorem stat_of_erase {d : Disk} {l : Loc} {p : Str} {n : Node} (h : (d.erase l).stat p = some n) : d.stat p = some n := by
  have hnode : ∀ k m, (d.erase l).node k = some m → d.node k = some m := by
    intro k m hm
    by_cases e : k = l
    · subst e
      by_cases hk : k = []
      · subst hk
        exact hm
      · rw [node_erase hk, if_pos rfl] at hm
        cases hm
    · rwa [node_erase_ne e] at hm
  obtain ⟨k, hk, hn⟩ := stat_eq_some.mp h
  refine stat_eq_some.mpr ⟨k, ?_, hnode k n hn⟩
  unfold locate at hk ⊢
  split at hk
  · cases hk
  · rename_i hp
    rw [if_neg hp]
    exact walk_mono (fun l hl => isDir_eq_true.mpr (hnode l _ (isDir_eq_true.mp hl))) _ _ _ hk

theorem stat_of_remove {d : Disk} {p q : Str} {n : Node} (h : ((d.remove p).getD d).stat q = some n) : d.stat q = some n := by
  cases hr : d.remove p with
  | none => rwa [hr] at h
  | some d' =>
    obtain ⟨l, _, _, rfl⟩ := remove_eq_some hr
    rw [hr] at h
    exact stat_of_erase h

theorem spares_iff {d : Disk} {p q : Str} {n : Node} (hq : d.stat q = some n) :
    ((d.remove p).getD d).stat q = some n ↔ d.Spares p q := by
  constructor
  · intro h l hl hr hm
    obtain ⟨d', hr⟩ := Option.isSome_iff_exists.mp hr
    obtain ⟨k, hk, _, rfl⟩ := remove_eq_some hr
    obtain rfl := Option.some.inj (hl.symm.trans hk)
    have hroot : l ≠ [] := by
      intro heq
      subst heq
      simp [remove, hl] at hr
    rw [hr, Option.getD_some] at h
    have hn := node_of_mem_way h (k := l) hm
    rw [node_erase hroot, if_pos rfl] at hn
    exact hn rfl
  · intro h
    rw [h.stat, hq]

end Disk

/-! ## The request -/

theorem fetchDisk_dirGrow (d : Disk) (fi : FileInfo) : Disk.DirGrow (fun _ => True) d (fetchDisk c d fi) := by
  unfold fetchDisk
  split
  · exact .refl d
  · exact Disk.mkdirs_dirGrow _ (fun _ _ => trivial) d _

theorem tmpDisk_dirGrow (d : Disk) (fi : FileInfo) : Disk.DirGrow (fun _ => True) d (tmpDisk c d fi) := by
  refine (fetchDisk_dirGrow (c := c) d fi).trans ?_
  unfold tmpDisk withFolder
  split
  · exact .refl _
  · exact Disk.mkdirs_dirGrow _ (fun _ _ => trivial) _ _

theorem askFile_written {d : Disk} {fi : FileInfo} {w : Download} {x : Str} {l : Loc} (hx : w.data = some x)
    (hsize : (x.length : Int) ≠ fi.size) (hl : (tmpDisk c d fi).locate (Server.tmpPath c fi) = some l)
    (hdir : (tmpDisk c d fi).node l ≠ some .dir) :
    (askFile c (fetchDisk c d fi) fi w).1 = ((tmpDisk c d fi).put l (.file x w.now)).erase l := by
  have hremove : ((tmpDisk c d fi).put l (.file x w.now)).remove (Server.tmpPath c fi) =
      some (((tmpDisk c d fi).put l (.file x w.now)).erase l) := by
    have hput : ((tmpDisk c d fi).put l (.file x w.now)).node l = some (.file x w.now) := by
      rw [Disk.node_put (Disk.ne_root_of_node hdir), if_pos rfl]
    exact Disk.remove_file (by rw [Disk.locate_put hdir]; exact hl) hput
  simp only [askFile, hx, toFile_placed hl hdir, hremove, ne_eq, hsize, not_false_eq_true, if_true,
    Bool.true_eq_false, if_false, Option.getD_some]

theorem stat_written {d : Disk} {l : Loc} (hdir : d.node l ≠ some .dir) (x : Str) (t : Int) (q : Str) :
    ((d.put l (.file x t)).erase l).stat q = if d.locate q = some l then none else d.stat q := by
  rw [Disk.stat_erase (Disk.put_ne_dir hdir x t), Disk.locate_put hdir]
  split
  · rfl
  · rename_i h
    rw [Disk.stat_put hdir, if_neg h]

theorem askFile_refused {d : Disk} {fi : FileInfo} {w : Download} {x : Str} (hx : w.data = some x)
    (h : ∀ l, (tmpDisk c d fi).locate (Server.tmpPath c fi) = some l → (tmpDisk c d fi).node l = some .dir) :
    (askFile c (fetchDisk c d fi) fi w).1 =
      ((tmpDisk c d fi).remove (Server.tmpPath c fi)).getD (tmpDisk c d fi) := by
  simp only [askFile, hx, toFile_refused x w.now h, if_true]

theorem askFile_absent {d : Disk} {fi : FileInfo} {w : Download} {k : Loc}
    (hk : d.locate (getFilePathByInfo c fi) = some k) (hn : ∀ x t, d.node k ≠ some (.file x t))
    (hend : (askFile c (fetchDisk c d fi) fi w).2 ≠ .stored) (x : Str) (t : Int) :
    (askFile c (fetchDisk c d fi) fi w).1.stat (getFilePathByInfo c fi) ≠ some (.file x t) := by
  have hgrown : ∀ d', Disk.DirGrow (fun _ => True) d d' → d'.stat (getFilePathByInfo c fi) ≠ some (.file x t) :=
    fun d' hg => hg.no_file hk hn x t
  cases hw : w.data with
  | none =>
    have hask : (askFile c (fetchDisk c d fi) fi w).1 =
        ((fetchDisk c d fi).remove (Server.tmpPath c fi)).getD (fetchDisk c d fi) := by simp only [askFile, hw]
    rw [hask]
    exact fun h => hgrown _ (fetchDisk_dirGrow d fi) (Disk.stat_of_remove h)
  | some data =>
    rcases (tmpDisk c d fi).placed_or_refused (Server.tmpPath c fi) with ⟨l, hl, hdir⟩ | hrefused
    · by_cases hsize : (data.length : Int) = fi.size
      · by_cases hacc : Accepts c d fi
        · exact absurd (askFile_accepted hw hsize hacc).1 hend
        · exact askFile_unplaced hw hsize hl hdir hacc x t
      · rw [askFile_written hw hsize hl hdir, stat_written hdir]
        split
        · exact fun h => by cases h
        · exact hgrown _ (tmpDisk_dirGrow d fi)
    · rw [askFile_refused hw hrefused]
      exact fun h => hgrown _ (tmpDisk_dirGrow d fi) (Disk.stat_of_remove h)

/-- A request that fails leaves the file that is there unless it removes it. -/
theorem askFile_keeps_iff {d : Disk} {fi : FileInfo} {w : Download} {x : Str} {t : Int}
    (hfile : d.stat (getFilePathByInfo c fi) = some (.file x t))
    (hend : (askFile c (fetchDisk c d fi) fi w).2 ≠ .stored) :
    (askFile c (fetchDisk c d fi) fi w).1.stat (getFilePathByInfo c fi) = some (.file x t) ↔ TmpSpares c d fi w := by
  have htmp := (tmpDisk_dirGrow (c := c) d fi).toGrow.stat hfile
  unfold TmpSpares
  cases hw : w.data with
  | none =>
    have hask : (askFile c (fetchDisk c d fi) fi w).1 =
        ((fetchDisk c d fi).remove (Server.tmpPath c fi)).getD (fetchDisk c d fi) := by simp only [askFile, hw]
    rw [hask, if_pos rfl]
    exact Disk.spares_iff ((fetchDisk_dirGrow (c := c) d fi).toGrow.stat hfile)
  | some data =>
    rw [if_neg (by simp)]
    rcases (tmpDisk c d fi).placed_or_refused (Server.tmpPath c fi) with ⟨l, hl, hdir⟩ | hrefused
    · by_cases hsize : (data.length : Int) = fi.size
      · -- with a place for the temporary file the new one would have been stored
        obtain ⟨k, hk, hn⟩ := Disk.stat_eq_some.mp htmp
        exact absurd (askFile_accepted hw hsize ⟨l, k, hl, hdir, hk, by simp [hn]⟩).1 hend
      · rw [askFile_written hw hsize hl hdir, stat_written hdir]
        constructor
        · intro h l' hl' _ hm
          obtain rfl := Option.some.inj (hl.symm.trans hl')
          obtain ⟨k, hk, _⟩ := Disk.stat_eq_some.mp htmp
          rw [if_pos (Disk.locate_eq_of_file hdir hk hm)] at h
          cases h
        · intro h
          have hoff := h.off_way hl hdir htmp
          rw [if_neg fun hq => hoff (Disk.mem_way_of_locate hq)]
          exact htmp
    · rw [askFile_refused hw hrefused]
      exact Disk.spares_iff htmp

/-! ## The call -/

theorem downloadRequest_asks {s : Server} {fi : FileInfo} (w : Download) (hoff : fi.offSet = -1) :
    (s.downloadRequest E c fi w).1.disk = (askFile c (fetchDisk c s.disk fi) fi w).1 ∧
      (s.downloadRequest E c fi w).2 = (askFile c (fetchDisk c s.disk fi) fi w).2 ∧
      (s.downloadRequest E c fi w).1.ldb = (s.ldb.put (Server.downloadKey w.start (getFilePathByInfo c fi)) .empty).del
        (Server.downloadKey w.start (getFilePathByInfo c fi)) := by
  have h2 : fi.offSet ≠ -2 := by omega
  have h0 : ¬ 0 ≤ fi.offSet := by omega
  have hreq : s.downloadRequest E c fi w =
      ({ ((asking c s fi w).downloadNormal c fi w).1 with
          ldb := ((asking c s fi w).downloadNormal c fi w).1.ldb.del
            (Server.downloadKey w.start (getFilePathByInfo c fi)) },
        ((asking c s fi w).downloadNormal c fi w).2) := by
    unfold Server.downloadRequest
    dsimp only
    rw [if_neg h2, if_neg h0]
    rfl
  have hask := downloadNormal_asks (c := c) (asking c s fi w) fi w
  rw [hreq]
  refine ⟨congrArg Prod.fst hask, congrArg Prod.snd hask, ?_⟩
  have hldb := (Server.downloadNormal_logs (c := c) (asking c s fi w) fi w).1
  dsimp only
  rw [hldb]
  rfl

/-- The `downloading_` key of a call hides a record only while the call lasts, and takes it along
    if the record is kept under that very key. -/
theorem getFileInfo_key {s s' : Server} {key m : Str} (hldb : s'.ldb = (s.ldb.put key .empty).del key) :
    s'.getFileInfoFromLevelDB m = s.getFileInfoFromLevelDB m ↔ (m = key → s.getFileInfoFromLevelDB m = none) := by
  unfold Server.getFileInfoFromLevelDB
  rw [hldb]
  by_cases h : m = key
  · subst h
    rw [Store.get_del_self]
    simp only [true_imp_iff]
    exact eq_comm
  · rw [Store.get_del_ne _ h, Store.get_put_ne _ _ h]
    simp [h]

/-- Past the removal, a request that stores nothing leaves no file. -/
theorem downloadRequest_lost {s : Server} {fi : FileInfo} {w : Download} {k : Loc} (hoff : fi.offSet = -1 ∨ fi.offSet = -2)
    (hk : s.disk.locate (getFilePathByInfo c fi) = some k) (hn : ∀ x t, s.disk.node k ≠ some (.file x t))
    (hend : (s.downloadRequest E c fi w).2 ≠ .stored) (x : Str) (t : Int) :
    (s.downloadRequest E c fi w).1.disk.stat (getFilePathByInfo c fi) ≠ some (.file x t) := by
  rcases hoff with hoff | hoff
  · obtain ⟨hdisk, he, _⟩ := downloadRequest_asks (E := E) (c := c) (s := s) w hoff
    rw [hdisk]
    exact askFile_absent hk hn (he ▸ hend) x t
  · have hreq : (s.downloadRequest E c fi w).1.disk = ((asking c s fi w).downloadMigrated E c fi w).1.disk ∧
        (s.downloadRequest E c fi w).2 = ((asking c s fi w).downloadMigrated E c fi w).2 := by
      unfold Server.downloadRequest
      dsimp only
      rw [if_pos hoff]
      exact ⟨rfl, rfl⟩
    rw [hreq.1]
    rw [hreq.2] at hend
    by_cases hsize : ((asking c s fi w).disk.stat (getFilePathByInfo c fi)).map Node.size = some fi.size
    · -- whatever has that size is no file
      have hsame : ((asking c s fi w).downloadMigrated E c fi w).1.disk = fetchDisk c s.disk fi := by
        unfold Server.downloadMigrated
        rw [if_pos hsize]
        rfl
      rw [hsame]
      exact (fetchDisk_dirGrow (c := c) s.disk fi).no_file hk hn x t
    · have hask := downloadMigrated_asks (E := E) (c := c) (s := asking c s fi w) w hsize
      have hdisk := congrArg Prod.fst hask
      have he := congrArg Prod.snd hask
      dsimp only at hdisk he
      rw [hdisk]
      exact askFile_absent hk hn (he ▸ hend) x t

/-- Where the file is removed first and nothing is stored, it is lost, whatever the peer answers. -/
theorem a_failed_refetch_loses_the_file {s : Server} {fi : FileInfo} {w : Download} {x : Str} {t : Int}
    (hoff : fi.offSet = -1 ∨ fi.offSet = -2) (hfile : s.disk.stat (getFilePathByInfo c fi) = some (.file x t))
    (hend : ((s.osRemove (getFilePathByInfo c fi)).downloadRequest E c fi w).2 ≠ .stored) (y : Str) (u : Int) :
    ((s.osRemove (getFilePathByInfo c fi)).downloadRequest E c fi w).1.disk.stat (getFilePathByInfo c fi) ≠
      some (.file y u) := by
  obtain ⟨k, hk, hn⟩ := Disk.stat_eq_some.mp hfile
  have hdir : s.disk.node k ≠ some .dir := by simp [hn]
  have hdisk : (s.osRemove (getFilePathByInfo c fi)).disk = s.disk.erase k := by
    simp only [Server.osRemove, Disk.remove_file hk hn, Option.getD_some]
  refine downloadRequest_lost hoff (k := k) ?_ ?_ hend y u
  · rw [hdisk, Disk.locate_erase hdir]
    exact hk
  · intro y u h
    rw [hdisk, Disk.node_erase (Disk.ne_root_of_node hdir), if_pos rfl] at h
    cases h

/-- A request of a whole file that fails. -/
theorem failed_request_keeps_iff {s : Server} {fi : FileInfo} {w : Download} {x : Str} {t : Int} (hoff : fi.offSet = -1)
    (hfile : s.disk.stat (getFilePathByInfo c fi) = some (.file x t))
    (hend : (s.downloadRequest E c fi w).2 ≠ .stored) :
    ((s.downloadRequest E c fi w).1.disk.stat (getFilePathByInfo c fi) = some (.file x t) ∧
      (s.downloadRequest E c fi w).1.getFileInfoFromLevelDB fi.md5 = s.getFileInfoFromLevelDB fi.md5) ↔
      TmpSpares c s.disk fi w ∧
        (fi.md5 = Server.downloadKey w.start (getFilePathByInfo c fi) → s.getFileInfoFromLevelDB fi.md5 = none) := by
  obtain ⟨hdisk, he, hldb⟩ := downloadRequest_asks (E := E) (c := c) (s := s) w hoff
  rw [he] at hend
  rw [hdisk, getFileInfo_key hldb, askFile_keeps_iff hfile hend]

theorem TmpSpares.retry {d : Disk} {fi : FileInfo} {w : Download} (n : Int) :
    TmpSpares c d { fi with retry := n } w ↔ TmpSpares c d fi w :=
  Iff.rfl

/-- A call that neither stores a file nor finds the one here newer. -/
theorem failed_fetch_keeps_iff {s : Server} {fi : FileInfo} {w : Download} {x : Str} {t : Int}
    (hoff : fi.offSet = -1 ∨ fi.offSet = -2) (hfile : s.disk.stat (getFilePathByInfo c fi) = some (.file x t))
    (hend : (s.downloadFromPeer E c fi w).2 ≠ .stored) (hnewer : (s.downloadFromPeer E c fi w).2 ≠ .newer) :
    ((s.downloadFromPeer E c fi w).1.disk.stat (getFilePathByInfo c fi) = some (.file x t) ∧
      (s.downloadFromPeer E c fi w).1.getFileInfoFromLevelDB fi.md5 = s.getFileInfoFromLevelDB fi.md5) ↔
      KeepsLocal c s fi w x := by
  unfold KeepsLocal
  unfold Server.downloadFromPeer at hend hnewer ⊢
  by_cases hro : c.readOnly = true
  · rw [if_pos hro]
    exact ⟨fun _ => Or.inl hro, fun _ => ⟨hfile, rfl⟩⟩
  rw [if_neg hro] at hend hnewer ⊢
  by_cases hretries : Server.outOfRetries c fi = true
  · rw [if_pos hretries]
    exact ⟨fun _ => Or.inr (Or.inl hretries), fun _ => ⟨hfile, rfl⟩⟩
  rw [if_neg hretries] at hend hnewer ⊢
  rw [or_iff_right hro, or_iff_right hretries]
  -- the retry counter is all that changes in the record
  have hpath : getFilePathByInfo c { fi with retry := fi.retry + 1 } = getFilePathByInfo c fi := rfl
  have hfile' := hfile
  rw [← hpath] at hfile'
  dsimp only at hend hnewer ⊢
  by_cases hdist : c.enableDistinctFile = true ∧ fi.offSet = -1
  · obtain ⟨hdist, hoff⟩ := hdist
    have hcheck : s.checkFileExistByInfo c { fi with retry := fi.retry + 1 } = true ↔ (x.length : Int) = fi.size :=
      Server.checkFileExistByInfo_file (by show fi.offSet < 0; omega) hfile'
    have h2 : fi.offSet ≠ -2 := by omega
    by_cases hsize : (x.length : Int) = fi.size
    · rw [if_pos ⟨h2, hdist, hcheck.mpr hsize⟩]
      exact ⟨fun _ => ⟨hdist, hoff, Or.inl hsize⟩, fun _ => ⟨hfile, rfl⟩⟩
    · have hno : ¬ (fi.offSet ≠ -2 ∧ c.enableDistinctFile = true ∧
          s.checkFileExistByInfo c { fi with retry := fi.retry + 1 } = true) := fun h => hsize (hcheck.mp h.2.2)
      have hno' : ¬ (c.enableDistinctFile = false ∨ fi.offSet = -2) := by simp [hdist, h2]
      rw [if_neg hno, if_neg hno'] at hend ⊢
      have hoff' : ({ fi with retry := fi.retry + 1 } : FileInfo).offSet = -1 := hoff
      have hkeeps := failed_request_keeps_iff (E := E) (w := w) hoff' hfile' hend
      rw [hpath, TmpSpares.retry] at hkeeps
      rw [hkeeps]
      exact ⟨fun h => ⟨hdist, hoff, Or.inr h⟩, fun h => h.2.2.resolve_left hsize⟩
  · -- the file is removed, or newer
    have hno : ¬ (fi.offSet ≠ -2 ∧ c.enableDistinctFile = true ∧
        s.checkFileExistByInfo c { fi with retry := fi.retry + 1 } = true) := by
      intro h
      exact hdist ⟨h.2.1, hoff.resolve_right h.1⟩
    have hyes : c.enableDistinctFile = false ∨ fi.offSet = -2 := by
      rcases hoff with h | h
      · exact Or.inl (by simpa [h] using hdist)
      · exact Or.inr h
    rw [if_neg hno, if_pos hyes, hpath, hfile] at hend hnewer ⊢
    dsimp only at hend hnewer ⊢
    constructor
    · intro h
      by_cases hmtime : fi.timeStamp < Node.modTime w.now (.file x t)
      · rw [if_pos hmtime] at hnewer
        exact absurd rfl hnewer
      · rw [if_neg hmtime] at h hend
        have hoff' : ({ fi with retry := fi.retry + 1 } : FileInfo).offSet = -1 ∨
            ({ fi with retry := fi.retry + 1 } : FileInfo).offSet = -2 := hoff
        have hlost := a_failed_refetch_loses_the_file (E := E) (w := w) hoff' hfile'
        rw [hpath] at hlost
        exact absurd h.1 (hlost hend x t)
    · intro h
      exact absurd ⟨h.1, h.2.1⟩ hdist

end

/-! ## Fixed inputs -/

def localHello : FileInfo :=
  { name := "m.txt".toList, path := "files/default".toList, md5 := Go.md5 "hello".toList, size := 5, offSet := -2
    timeStamp := 10 }

def helloHere : Server := Server.fresh (Disk.ofFiles [("files/default/m.txt".toList, "hello".toList)])

/-- A migrated file that is here already, and whose peer is gone. -/
theorem an_unreachable_peer_deletes_the_copy :
    let r := helloHere.downloadFromPeer Env.plain { enableDistinctFile := true } localHello {}
    helloHere.disk.read "files/default/m.txt".toList = some "hello".toList ∧ r.2 = .requeued ∧
      r.1.disk.fileExists "files/default/m.txt".toList = false := by
  decide +kernel

theorem an_unreachable_peer_leaves_a_distinct_file :
    let fi := { localHello with offSet := -1, size := 6 }
    (helloHere.downloadFromPeer Env.plain { enableDistinctFile := true } fi {}).1.disk.stat "files/default/m.txt".toList =
      some (.file "hello".toList 0) := by
  intro fi
  have hoff : fi.offSet = -1 ∨ fi.offSet = -2 := Or.inl rfl
  have hfile : helloHere.disk.stat (getFilePathByInfo { enableDistinctFile := true } fi) = some (.file "hello".toList 0) := by
    decide +kernel
  have hsame := (failed_fetch_keeps_iff (E := Env.plain) (c := { enableDistinctFile := true }) (w := {}) hoff hfile
    (by decide +kernel) (by decide +kernel)).mpr
  refine (hsame (Or.inr (Or.inr ⟨rfl, rfl, Or.inr ⟨?_, fun h => ?_⟩⟩))).1
  · intro l _ hr
    exact absurd hr (by decide +kernel)
  · revert h
    decide +kernel

end GoFastdfs
