/-
  GoFastdfs.Resumable — what is done with a completed resumable upload (`initTus` of
  `init.go`, its `notify` loop).

  tusd keeps the bytes of an upload in `<id>.bin` and its description in `<id>.info`, both
  in one folder, and tells when it is complete. A content that is recorded and there is not
  kept twice. Any other is moved: the place is put together from the scene of the upload, or
  the default scene if it names none; the path of the record, and the folder that is made,
  from the default scene whatever the upload names. The move replaces what is in its place,
  and then `<id>.info` is removed.

  Proved: the record leads to the file moved, and the bytes of no other record change,
  exactly if the upload cannot be moved, or its scene leads where the default scene leads and
  no record's bytes are there or in the two files of the upload (`tusKept_iff`).
-/

import GoFastdfs.LocalCopy

namespace GoFastdfs

open Go (Str)

variable (E : Env) (c : Config)

/-! ## The upload and its names -/

/-- A completed upload, as tusd reports it. -/
structure TusUpload where
  id : Str
  metaData : List (Str × Str) := []
  size : Int := 0

namespace TusUpload

variable (u : TusUpload)

def name : Str := (u.metaData.lookup "filename".toList).getD []

def scene : Str := (u.metaData.lookup "scene".toList).getD c.defaultScene

def pathCustom : Str := (u.metaData.lookup "path".toList).getD []

def bigDir (c : Config) : Str := c.STORE_DIR ++ "/_big/".toList ++ c.peerId

def oldFullPath : Str := bigDir c ++ '/' :: (u.id ++ ".bin".toList)

def infoFullPath : Str := bigDir c ++ '/' :: (u.id ++ ".info".toList)

def filename (md5sum : Str) : Str :=
  let ext := Go.pathExt u.name
  if c.renameFile then md5sum ++ ext else if u.name ≠ [] then u.name else md5sum ++ ext

def fpath (now : Int) : Str :=
  if u.pathCustom ≠ [] then '/' :: (Go.replaceAll ['.'] [] u.pathCustom ++ ['/'])
  else '/' :: (Go.dayHourMinute E.zone now ++ ['/'])

/-- `newFullPath`, were `scene` the scene of the upload. -/
def fullPathIn (scene md5sum : Str) (now : Int) : Str :=
  let dir := c.STORE_DIR ++ '/' :: (scene ++ u.fpath E now)
  if u.pathCustom ≠ [] then dir ++ u.filename c md5sum else dir ++ c.peerId ++ '/' :: u.filename c md5sum

def newFullPath (md5sum : Str) (now : Int) : Str := u.fullPathIn E c (u.scene c) md5sum now

def fpath2 (now : Int) : Str :=
  let dir := STORE_DIR_NAME ++ '/' :: (c.defaultScene ++ u.fpath E now)
  if u.pathCustom ≠ [] then dir.rdropWhile (· == '/') else dir ++ c.peerId

def recordedPath (md5sum : Str) (now : Int) : Str := c.dockerDir ++ u.fpath2 E c now ++ '/' :: u.filename c md5sum

end TusUpload

/-! ## One turn of the loop -/

inductive TusEnd where
  | failed
  /-- The content is recorded and there; its record is saved under the upload's id too. -/
  | found (fi : FileInfo)
  | moved (fi : FileInfo)
  deriving DecidableEq, Repr

namespace Server

def tusInfo (s : Server) (u : TusUpload) (md5sum : Str) (stamp now : Int) : FileInfo :=
  { name := u.name, path := u.fpath2 E c now, reName := u.filename c md5sum, size := u.size, timeStamp := stamp
    md5 := md5sum, peers := [s.host], offSet := -1 }

def tusDisk (s : Server) (u : TusUpload) (now : Int) : Disk := s.disk.mkdirAll (c.dockerDir ++ u.fpath2 E c now)

/-- The turn for `u`: the time is asked for twice. `<id>.bin` is a regular file, if it is
    there. -/
def notify (s : Server) (u : TusUpload) (stamp now : Int) : TusEnd × Server :=
  match s.disk.read (u.oldFullPath c) with
  | none => (.failed, s)
  | some data =>
    let md5sum := fileSum E c data
    let known := (s.getFileInfoFromLevelDB md5sum).filter fun fi =>
      fi.md5 ≠ [] ∧ s.disk.fileExists (getFilePathByInfo c fi) = true
    match known with
    | some fi =>
      (.found fi, ((s.saveFileInfoToLevelDB E u.id fi .ldb).osRemove (u.oldFullPath c)).osRemove (u.infoFullPath c))
    | none =>
      let fi := s.tusInfo E c u md5sum stamp now
      let d := s.tusDisk E c u now
      match d.rename (u.oldFullPath c) (u.newFullPath E c md5sum now) with
      | none => (.failed, { s with disk := d })
      | some d =>
        let s := { s with disk := d }.osRemove (u.infoFullPath c)
        (.moved fi, (s.saveFileInfoToLevelDB E u.id fi .ldb).logLater fi CONST_FILE_Md5_FILE_NAME)

end Server

/-! ## What is to be kept -/

def bytesOf (v : FileInfo) (x : Str) : Option Str := if 0 ≤ v.offSet then Disk.slice x v.offSet.toNat v.size.toNat else some x

def recordedBytes (d : Disk) (v : FileInfo) : Option Str := (d.read (dataPath c v)).bind (bytesOf v)

/-- tusd has left the two files of an upload, whose content has no record. -/
structure Completed (s : Server) (u : TusUpload) (data : Str) : Prop where
  bin : s.disk.read (u.oldFullPath c) = some data
  info : ∃ x, s.disk.read (u.infoFullPath c) = some x
  new : s.getFileInfoFromLevelDB (fileSum E c data) = none

/-- If a record is saved, it leads to the place to which the upload was moved, where its bytes
    are; and the other records have the bytes they had. -/
structure TusKept (s : Server) (u : TusUpload) (data : Str) (stamp now : Int) : Prop where
  names : ∀ fi s' l, s.notify E c u stamp now = (.moved fi, s') →
    (s.tusDisk E c u now).locate (u.newFullPath E c (fileSum E c data) now) = some l →
    s'.disk.locate (c.dockerDir ++ fi.path ++ '/' :: fi.reName) = some l ∧ ∃ t, s'.disk.node l = some (.file data t)
  others : ∀ fi s', s.notify E c u stamp now = (.moved fi, s') → ∀ key v b, s.ldb.get key = some (.record v) →
    recordedBytes c s.disk v = some b → recordedBytes c s'.disk v = some b

/-- The scene of the upload leads where the default scene leads, and no other file is in the way. -/
structure TusFree (s : Server) (u : TusUpload) (data : Str) (now : Int) : Prop where
  place : (s.tusDisk E c u now).locate (u.fullPathIn E c c.defaultScene (fileSum E c data) now) =
    (s.tusDisk E c u now).locate (u.newFullPath E c (fileSum E c data) now)
  info : (s.tusDisk E c u now).locate (u.newFullPath E c (fileSum E c data) now) ≠ s.disk.locate (u.infoFullPath c)
  records : ∀ key v b, s.ldb.get key = some (.record v) → recordedBytes c s.disk v = some b →
    s.disk.locate (dataPath c v) ≠ s.disk.locate (u.infoFullPath c) ∧
    (s.disk.locate (dataPath c v) = s.disk.locate (u.oldFullPath c) →
      (s.tusDisk E c u now).locate (u.newFullPath E c (fileSum E c data) now) = s.disk.locate (u.oldFullPath c)) ∧
    (s.disk.locate (dataPath c v) = (s.tusDisk E c u now).locate (u.newFullPath E c (fileSum E c data) now) →
      bytesOf v data = some b)

def CanMove (s : Server) (u : TusUpload) (data : Str) (now : Int) : Prop :=
  ∃ k, (s.tusDisk E c u now).locate (u.newFullPath E c (fileSum E c data) now) = some k ∧
    (s.tusDisk E c u now).node k ≠ some .dir

section
variable {E c}

theorem TusUpload.locate_recordedPath (u : TusUpload) (d : Disk) (md5sum : Str) (now : Int) :
    d.locate (u.recordedPath E c md5sum now) = d.locate (u.fullPathIn E c c.defaultScene md5sum now) := by
  unfold recordedPath fpath2 fullPathIn Config.STORE_DIR
  by_cases hcustom : u.pathCustom ≠ []
  · have hslashes := Disk.locate_slashes d (c.dockerDir ++ STORE_DIR_NAME ++ '/' :: c.defaultScene ++
      '/' :: Go.replaceAll ['.'] [] u.pathCustom) (u.filename c md5sum)
    have hfpath : u.fpath E now = '/' :: (Go.replaceAll ['.'] [] u.pathCustom ++ ['/']) := if_pos hcustom
    simp only [List.append_assoc, List.cons_append] at hslashes
    rw [if_pos hcustom, if_pos hcustom, Disk.locate_rdropWhile_slash, hfpath]
    simp only [List.append_assoc, List.cons_append, List.nil_append, hslashes]
  · simp only [if_neg hcustom, List.append_assoc, List.cons_append]

/-! ## The disk after the move -/

/-- A file moved and another removed: the paths lead where they led, and two places have changed,
    or three. -/
theorem moved_disk {d : Disk} {p q r data : Str} {t : Int} {l k m : Loc} (hl : d.locate p = some l)
    (hfile : d.node l = some (.file data t)) (hk : d.locate q = some k) (hkdir : d.node k ≠ some .dir)
    (hm : d.locate r = some m) (hmdir : d.node m ≠ some .dir) :
    ∃ d', d.rename p q = some d' ∧ (∀ x, ((d'.remove r).getD d').locate x = d.locate x) ∧
      ∀ j, ((d'.remove r).getD d').node j =
        if j = m then none else if j = k then some (.file data t) else if j = l then none else d.node j := by
  have hldir : d.node l ≠ some .dir := by rw [hfile]; simp
  have hkdir' : (d.erase l).node k ≠ some .dir := by
    rw [Disk.node_erase (Disk.ne_root_of_node hldir)]
    split
    · simp
    · exact hkdir
  have hlocate : ∀ x, ((d.erase l).put k (.file data t)).locate x = d.locate x := fun x => by
    rw [Disk.locate_put hkdir', Disk.locate_erase hldir]
  have hnode : ∀ j, ((d.erase l).put k (.file data t)).node j =
      if j = k then some (.file data t) else if j = l then none else d.node j := fun j => by
    rw [Disk.node_put (Disk.ne_root_of_node hkdir), Disk.node_erase (Disk.ne_root_of_node hldir)]
  have hmdir' : ((d.erase l).put k (.file data t)).node m ≠ some .dir := by
    rw [hnode]
    split_ifs
    · simp
    · simp
    · exact hmdir
  refine ⟨_, rename_file hl hk hfile hkdir, ?_⟩
  generalize (d.erase l).put k (.file data t) = d' at hlocate hnode hmdir'
  have hm' : d'.locate r = some m := (hlocate r).trans hm
  cases hat : d'.node m with
  | none =>
    have hremove : d'.remove r = none := by simp only [Disk.remove, hm', hat]
    rw [hremove, Option.getD_none]
    refine ⟨hlocate, fun j => ?_⟩
    split
    · rename_i hj
      rw [hj, hat]
    · exact hnode j
  | some n =>
    cases n with
    | dir => exact absurd hat hmdir'
    | file x u =>
      rw [Disk.remove_file hm' hat, Option.getD_some]
      refine ⟨fun y => by rw [Disk.locate_erase hmdir', hlocate], fun j => ?_⟩
      rw [Disk.node_erase (Disk.ne_root_of_node hmdir'), hnode]

/-! ## The turn -/

theorem Completed.unknown {s : Server} {u : TusUpload} {data : Str} (h : Completed E c s u data) :
    ((s.getFileInfoFromLevelDB (fileSum E c data)).filter fun fi =>
      fi.md5 ≠ [] ∧ s.disk.fileExists (getFilePathByInfo c fi) = true) = none := by
  rw [h.new, Option.filter_none]

theorem Completed.places {s : Server} {u : TusUpload} {data : Str} (h : Completed E c s u data) (now : Int) :
    ∃ l m t x y, s.disk.locate (u.oldFullPath c) = some l ∧ s.disk.locate (u.infoFullPath c) = some m ∧
      (s.tusDisk E c u now).locate (u.oldFullPath c) = some l ∧ (s.tusDisk E c u now).node l = some (.file data t) ∧
      (s.tusDisk E c u now).locate (u.infoFullPath c) = some m ∧ (s.tusDisk E c u now).node m = some (.file x y) := by
  have hgrow : s.disk.Grow (s.tusDisk E c u now) := s.disk.mkdirAll_grow _
  obtain ⟨l, t, hl, hn⟩ := Disk.read_eq_some.mp h.bin
  obtain ⟨x, hx⟩ := h.info
  obtain ⟨m, y, hm, hmn⟩ := Disk.read_eq_some.mp hx
  exact ⟨l, m, t, x, y, hl, hm, hgrow.locate hl, hgrow.keeps _ _ hn, hgrow.locate hm, hgrow.keeps _ _ hmn⟩

/-- An upload with a place to move to is moved there, and `<id>.info` is removed. -/
theorem notify_moved {s : Server} {u : TusUpload} {data : Str} {now : Int} (stamp : Int) (h : Completed E c s u data)
    {d : Disk} (hd : (s.tusDisk E c u now).rename (u.oldFullPath c) (u.newFullPath E c (fileSum E c data) now) = some d) :
    (s.notify E c u stamp now).1 = .moved (s.tusInfo E c u (fileSum E c data) stamp now) ∧
      (s.notify E c u stamp now).2.disk = (d.remove (u.infoFullPath c)).getD d := by
  simp only [Server.notify, h.bin, h.unknown, hd]
  exact ⟨trivial, rfl⟩

theorem notify_unmoved {s : Server} {u : TusUpload} {data : Str} {now : Int} (stamp : Int) (h : Completed E c s u data)
    (hd : (s.tusDisk E c u now).rename (u.oldFullPath c) (u.newFullPath E c (fileSum E c data) now) = none) :
    (s.notify E c u stamp now).1 = .failed := by
  simp only [Server.notify, h.bin, h.unknown, hd]

theorem rename_none_of_not_canMove {s : Server} {u : TusUpload} {data : Str} {now : Int} (h : ¬ CanMove E c s u data now)
    (p : Str) : (s.tusDisk E c u now).rename p (u.newFullPath E c (fileSum E c data) now) = none := by
  cases hr : (s.tusDisk E c u now).rename p (u.newFullPath E c (fileSum E c data) now) with
  | none => rfl
  | some d =>
    obtain ⟨_, k, _, _, _, hk, _, hkdir, _⟩ := Disk.rename_eq_some hr
    exact absurd ⟨k, hk, hkdir⟩ h

/-! ## The records -/

theorem recordedBytes_of_node {d : Disk} {v : FileInfo} {q : Loc} (hq : d.locate (dataPath c v) = some q) :
    recordedBytes c d v = match d.node q with
      | some (.file x _) => bytesOf v x
      | _ => none := by
  simp only [recordedBytes, Disk.read, Disk.stat, hq, Option.bind_some]
  rcases d.node q with _ | _ | ⟨x, t⟩ <;> rfl

/-- A record's bytes survive exactly if they are not in the place that is removed, nor in the one
    that is left, and are those of the file moved if they are in its place. -/
theorem recordedBytes_moved {d0 d d' : Disk} {v : FileInfo} {data b : Str} {t : Int} {k l m : Loc} (hgrow : d0.Grow d)
    (hlocate : ∀ x, d'.locate x = d.locate x)
    (hnode : ∀ j, d'.node j = if j = m then none else if j = k then some (.file data t) else if j = l then none else d.node j)
    (hb : recordedBytes c d0 v = some b) :
    ∃ q, d0.locate (dataPath c v) = some q ∧
      (recordedBytes c d' v = some b ↔ q ≠ m ∧ (q = l → k = l) ∧ (q = k → bytesOf v data = some b)) := by
  obtain ⟨x, hx, hbx⟩ := Option.bind_eq_some_iff.mp hb
  obtain ⟨q, tq, hq, hn⟩ := Disk.read_eq_some.mp hx
  refine ⟨q, hq, ?_⟩
  have hq' : d'.locate (dataPath c v) = some q := (hlocate _).trans (hgrow.locate hq)
  have hn' : d.node q = some (.file x tq) := hgrow.keeps _ _ hn
  rw [recordedBytes_of_node hq', hnode]
  by_cases hm : q = m
  · simp [hm]
  by_cases hk : q = k
  · subst hk
    simp [hm]
  by_cases hl : q = l
  · have hkl : k ≠ l := fun e => hk (hl.trans e.symm)
    rw [if_neg hm, if_neg hk, if_pos hl]
    exact iff_of_false (by simp) fun hkeeps => hkl (hkeeps.2.1 hl)
  · simp [hm, hk, hl, hn', hbx]

/-- Where the upload can be moved, the record leads to it and no other bytes change exactly if the
    places are one and free. -/
theorem kept_moved_iff {s : Server} {u : TusUpload} {data : Str} {stamp now : Int} (h : Completed E c s u data)
    (hcan : CanMove E c s u data now) : TusKept E c s u data stamp now ↔ TusFree E c s u data now := by
  obtain ⟨k, hk, hkdir⟩ := hcan
  obtain ⟨l, m, t, x, y, hl0, hm0, hl, hfile, hm, hinfo⟩ := h.places now
  obtain ⟨d, hrename, hlocate, hnode⟩ := moved_disk hl hfile hk hkdir hm (by rw [hinfo]; simp)
  obtain ⟨hend, hdisk⟩ := notify_moved stamp h hrename
  have hgrow : s.disk.Grow (s.tusDisk E c u now) := s.disk.mkdirAll_grow _
  rw [← hdisk] at hlocate hnode
  have hnotify := Prod.fst_eq_iff.mp hend
  constructor
  · intro hkept
    obtain ⟨hplace, tk, hkn⟩ := hkept.names _ _ k hnotify hk
    have hplace' : (s.tusDisk E c u now).locate (u.fullPathIn E c c.defaultScene (fileSum E c data) now) = some k :=
      (u.locate_recordedPath _ _ now).symm.trans ((hlocate _).symm.trans hplace)
    have hkm : k ≠ m := by
      intro heq
      subst heq
      rw [hnode, if_pos rfl] at hkn
      cases hkn
    refine ⟨hplace'.trans hk.symm, fun e => hkm ?_, fun key v b hv hb => ?_⟩
    · exact Option.some.inj ((hk.symm.trans e).trans hm0)
    · obtain ⟨q, hq, hiff⟩ := recordedBytes_moved hgrow hlocate hnode hb
      obtain ⟨hqm, hql, hqk⟩ := hiff.mp (hkept.others _ _ hnotify key v b hv hb)
      rw [hq, hm0, hl0, hk]
      simp only [ne_eq, Option.some.injEq]
      exact ⟨hqm, hql, hqk⟩
  · intro hfree
    have hkm : k ≠ m := fun e => hfree.info (by rw [hk, hm0, e])
    refine ⟨fun fi s' j hmoved hj => ?_, fun fi s' hmoved key v b hv hb => ?_⟩
    · rw [hnotify] at hmoved
      cases hmoved
      obtain rfl := Option.some.inj (hk.symm.trans hj)
      refine ⟨(hlocate _).trans ((u.locate_recordedPath _ _ now).trans (hfree.place.trans hk)), t, ?_⟩
      rw [hnode, if_neg hkm, if_pos rfl]
    · rw [hnotify] at hmoved
      cases hmoved
      obtain ⟨q, hq, hiff⟩ := recordedBytes_moved hgrow hlocate hnode hb
      have hrecords := hfree.records key v b hv hb
      rw [hq, hm0, hl0, hk] at hrecords
      simp only [ne_eq, Option.some.injEq] at hrecords
      exact hiff.mpr hrecords

theorem tusKept_iff {s : Server} {u : TusUpload} {data : Str} (h : Completed E c s u data) (stamp now : Int) :
    TusKept E c s u data stamp now ↔ (CanMove E c s u data now → TusFree E c s u data now) := by
  by_cases hcan : CanMove E c s u data now
  · rw [kept_moved_iff h hcan]
    exact ⟨fun hfree _ => hfree, fun hfree => hfree hcan⟩
  · have hfailed := notify_unmoved stamp h (rename_none_of_not_canMove hcan _)
    refine iff_of_true ⟨fun fi s' l hmoved => ?_, fun fi s' hmoved => ?_⟩ fun hmove => absurd hmove hcan
    · rw [hmoved] at hfailed
      cases hfailed
    · rw [hmoved] at hfailed
      cases hfailed

end

def tusConfig : Config := { defaultScene := "default".toList, peerId := "p".toList }

def tusOld : FileInfo :=
  { name := "old.txt".toList, path := "files/other/custom".toList, md5 := Go.md5 "old".toList, size := 3, offSet := -1 }

def tusNode : Server :=
  { disk := Disk.ofFiles [("files/_big/p/a1.bin".toList, "hello".toList), ("files/_big/p/a1.info".toList, "{}".toList),
      ("files/other/custom/old.txt".toList, "old".toList)]
    ldb := (∅ : Store Str Value).put (Go.md5 "old".toList) (.record tusOld) }

def tusUpload : TusUpload :=
  { id := "a1".toList, metaData := [("filename".toList, "hello.txt".toList)], size := 5 }

theorem tusKept_iff_named : TusKept .plain tusConfig tusNode tusUpload "hello".toList 0 0 := by
  refine (tusKept_iff ⟨by decide +kernel, ⟨"{}".toList, by decide +kernel⟩, by decide +kernel⟩ 0 0).mpr fun _ =>
    ⟨by decide +kernel, by decide +kernel, fun key v b hv _ => ?_⟩
  have hold : v = tusOld := by
    simp only [tusNode, Store.get_put] at hv
    split at hv
    · exact (Value.record.inj (Option.some.inj hv)).symm
    · cases hv
  subst hold
  exact ⟨by decide +kernel, by decide +kernel, fun hplace => absurd hplace (by decide +kernel)⟩

def otherSceneUpload : TusUpload :=
  { tusUpload with metaData := [("filename".toList, "hello.txt".toList), ("scene".toList, "other".toList),
      ("path".toList, "custom".toList)] }

/-- The file is in `files/other/custom`, its record says `files/default/custom`. -/
theorem another_scene_is_recorded_as_default :
    Completed .plain tusConfig tusNode otherSceneUpload "hello".toList ∧
      ¬ TusKept .plain tusConfig tusNode otherSceneUpload "hello".toList 0 0 := by
  refine ⟨⟨by decide +kernel, ⟨"{}".toList, by decide +kernel⟩, by decide +kernel⟩, fun hkept => ?_⟩
  have hmoved : (tusNode.notify .plain tusConfig otherSceneUpload 0 0).1 =
      .moved (tusNode.tusInfo .plain tusConfig otherSceneUpload (fileSum .plain tusConfig "hello".toList) 0 0) := by
    decide +kernel
  have hrecord : (tusNode.notify .plain tusConfig otherSceneUpload 0 0).2.disk.locate
      (otherSceneUpload.recordedPath .plain tusConfig (fileSum .plain tusConfig "hello".toList) 0) ≠
        some ["files".toList, "other".toList, "custom".toList, "hello.txt".toList] := by
    decide +kernel
  have hplace : (tusNode.tusDisk .plain tusConfig otherSceneUpload 0).locate (otherSceneUpload.newFullPath .plain tusConfig
      (fileSum .plain tusConfig "hello".toList) 0) =
        some ["files".toList, "other".toList, "custom".toList, "hello.txt".toList] := by
    decide +kernel
  exact hrecord (hkept.names _ _ _ (Prod.fst_eq_iff.mp hmoved) hplace).1

end GoFastdfs
