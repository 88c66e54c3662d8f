/-
  GoFastdfs.RawRead — a record's file sent under the address of resumable uploads
  (`GetReaderExt` of `initTus` in `init.go`, `GetFile` of tusd).

  The last element of the address is the key of a record. Its file is sent as it is; where
  there is none, the name is taken apart at its commas and the piece of the pack that it
  names is read, whose first byte is to be the marker `1`. Offset and length come from the
  record and not from the address, and no bound is checked before the read. Where the login
  is done elsewhere the answer is the address of the file in its place.

  Proved: on every disk, of a merged file the raw read sends what the download reads, and
  nothing else (`raw_read_agrees_with_download`). A resumable upload that was moved to where
  its record leads is read back under its own id (`finished_upload_reads_back`).
-/

import GoFastdfs.Resumable

namespace GoFastdfs

open Go (Str)

variable (E : Env) (c : Config)

def readFileByOffSet (d : Disk) (p : Str) (offset length : Int) : SmallRead :=
  match d.stat p with
  | none => .none false
  | some n =>
    if length < 0 then .panic
    else if offset < 0 then .none false
    else
      match n with
      | .dir => if length = 0 then .data [] else .none false
      | .file data _ =>
        match Disk.slice data offset.toNat length.toNat with
        | some b => .data b
        | none => .none false

inductive RawEnd where
  | sent (bytes : Str)
  | answer (result : FileResult)
  | failed
  | panic
  deriving DecidableEq, Repr

def rawPiece (d : Disk) (fp : Str) : RawEnd :=
  match fp.splitOn ',' with
  | pack :: pos1 :: pos2 :: _ =>
    if d.fileExists pack = false then .failed
    else
      match Go.parseInt pos2, Go.parseInt pos1 with
      | (length, true), (offset, true) =>
        match readFileByOffSet d pack offset length with
        | .none _ => .failed
        | .panic => .panic
        | .data [] => .panic
        | .data (b :: bytes) => if b = '1' then .sent bytes else .failed
      | _, _ => .failed
  | _ => .failed

/-- `GetReaderExt`, and what is copied of its reader: of a folder nothing. -/
def Server.getReaderExt (s : Server) (downloadDomain id : Str) : RawEnd :=
  match s.getFileInfoFromLevelDB id with
  | none => .failed
  | some fi =>
    if c.authUrl ≠ [] then .answer (buildFileResult c downloadDomain fi none).1
    else
      let fp := getFilePathByInfo c fi
      match s.disk.stat fp with
      | some (.file data _) => .sent data
      | some .dir => .sent []
      | none => rawPiece s.disk fp

section
variable {E c}

theorem getReaderExt_file {s : Server} {id data : Str} {fi : FileInfo} (hauth : c.authUrl = [])
    (hrec : s.getFileInfoFromLevelDB id = some fi) (hread : s.disk.read (getFilePathByInfo c fi) = some data)
    (downloadDomain : Str) : s.getReaderExt c downloadDomain id = .sent data := by
  obtain ⟨l, t, hl, hn⟩ := Disk.read_eq_some.mp hread
  simp only [Server.getReaderExt, hrec, hauth, ne_eq, not_true_eq_false, if_false, Disk.stat, hl, Option.bind_some, hn]

theorem splitOn_merged (hc : SmallNames c) {fi : FileInfo} {x : Str} {n off : Nat} (hm : Merged c fi x n off) :
    ∃ rest, (getFilePathByInfo c fi).splitOn ',' =
      packPath c (Go.itoa n) :: Go.itoa off :: Go.itoa ((x.length + 1 : Nat) : Int) :: rest := by
  obtain ⟨ext, -, hname⟩ := hm.name
  have hcomma : ∀ k : Nat, ',' ∉ Go.itoa (k : Int) := fun k => Go.notMem_itoa (by decide) k
  have hpack : ',' ∉ packPath c (Go.itoa n) := by
    obtain ⟨-, hslash, hlarge, hstore⟩ := notMem_dirNames ',' (by decide)
    obtain ⟨hpeer, -, hdocker⟩ := hc.plain ',' (by decide)
    rw [packPath_eq, largePath]
    simp only [List.mem_append, List.mem_cons, hdocker, hstore, hslash, hlarge, hpeer, hcomma, or_self, not_false_eq_true]
  have hfp : getFilePathByInfo c fi = packPath c (Go.itoa n) ++ ',' :: (Go.itoa off ++ ',' ::
      (Go.itoa ((x.length + 1 : Nat) : Int) ++ ',' :: ext)) := by
    rw [packPath_eq, getFilePathByInfo, FileInfo.fullpath, hm.path, hname, smallName]
    simp only [List.append_assoc, List.cons_append]
  rw [hfp, List.splitOn_append_cons_self_of_not_mem hpack, List.splitOn_append_cons_self_of_not_mem (hcomma off),
    List.splitOn_append_cons_self_of_not_mem (hcomma _)]
  exact ⟨_, rfl⟩

/-- The piece sent is the one that the record names, behind its marker. -/
theorem rawPiece_merged (hc : SmallNames c) {d : Disk} {fi : FileInfo} {x : Str} (hlen : x.length < 1024 * 1024) {n off : Nat}
    (hm : Merged c fi x n off) (b : Str) : rawPiece d (getFilePathByInfo c fi) = .sent b ↔
      ∃ data, d.read (packPath c (Go.itoa n)) = some data ∧ Disk.slice data off (x.length + 1) = some ('1' :: b) := by
  obtain ⟨rest, hsplit⟩ := splitOn_merged hc hm
  have hneg : ¬ ((x.length + 1 : Nat) : Int) < 0 := by omega
  have hoff : ¬ (off : Int) < 0 := by omega
  have hzero : (x.length : Int) + 1 ≠ 0 := by omega
  have hlength : x.length + 1 < 2 ^ 63 := by omega
  simp only [rawPiece, hsplit, Go.parseInt_itoa hm.offset_lt, Go.parseInt_itoa hlength,
    readFileByOffSet, if_neg hneg, if_neg hoff, Int.toNat_natCast, Disk.fileExists, Disk.read]
  cases hs : d.stat (packPath c (Go.itoa n)) with
  | none => simp
  | some nd =>
    cases nd with
    | dir => simp [hzero]
    | file data t =>
      simp only [Option.isSome_some, Bool.true_eq_false, if_false, Option.some.injEq, exists_eq_left']
      cases hslice : Disk.slice data off (x.length + 1) with
      | none => simp
      | some y =>
        rcases y with _ | ⟨m, bytes⟩
        · simp
        · by_cases hmarker : m = '1'
          · simp [hmarker]
          · simp [hmarker]

end

/-- Whatever the disk holds, a merged file is sent raw as the download reads it. -/
theorem raw_read_agrees_with_download (hc : SmallNames c) (hauth : c.authUrl = []) {s : Server} {id : Str} {fi : FileInfo}
    {x : Str} (hlen : x.length < 1024 * 1024) {n off : Nat} (hm : Merged c fi x n off)
    (hrec : s.getFileInfoFromLevelDB id = some fi) (hno : s.disk.fileExists (getFilePathByInfo c fi) = false)
    (downloadDomain : Str) {r : Request} {q : Str} (hq : '/' ∉ q) (hr : r.requestURI = '/' :: resultPath c fi ++ q) (b : Str) :
    s.getReaderExt c downloadDomain id = .sent b ↔ getSmallFileByURI c s.disk r = .data ('1' :: b) := by
  have hstat : s.disk.stat (getFilePathByInfo c fi) = none := by simpa [Disk.fileExists] using hno
  rw [getSmallFileByURI_merged c hc hlen hm hq hr, ← rawPiece_merged hc hlen hm b]
  simp only [Server.getReaderExt, hrec, hauth, ne_eq, not_true_eq_false, if_false, hstat]

def packedHello : FileInfo :=
  { name := "a.txt".toList, reName := "150,0,6,.txt".toList, path := "files/haystack/p1".toList, size := 6, offSet := 0 }

theorem packedHello_merged : Merged Config.sample packedHello "hello".toList 150 0 :=
  ⟨by decide, by decide, by decide, ⟨".txt".toList, by decide, by decide +kernel⟩, rfl, rfl⟩

def packedNode : Server :=
  { disk := Disk.ofFiles [("files/haystack/p1/150".toList, "1hello".toList)]
    ldb := (∅ : Store Str Value).put "m".toList (.record packedHello) }

theorem a_packed_file_is_sent_raw : packedNode.getReaderExt Config.sample [] "m".toList = .sent "hello".toList :=
  (raw_read_agrees_with_download Config.sample Config.sample_smallNames rfl (by decide) packedHello_merged (by decide)
    (by decide +kernel) [] (by decide : '/' ∉ ([] : Str)) (r := { requestURI := "/haystack/p1/150,0,6,.txt".toList })
    (by decide +kernel) "hello".toList).mpr (by decide +kernel)

section
variable {E c}

/-- Where the move went to is where the record leads. -/
theorem notify_moved_recorded {s : Server} {u : TusUpload} {data : Str} {now : Int} (stamp : Int)
    (h : Completed E c s u data) (hcan : CanMove E c s u data now)
    (hplace : (s.tusDisk E c u now).locate (u.fullPathIn E c c.defaultScene (fileSum E c data) now) =
      (s.tusDisk E c u now).locate (u.newFullPath E c (fileSum E c data) now))
    (hinfo : (s.tusDisk E c u now).locate (u.newFullPath E c (fileSum E c data) now) ≠ s.disk.locate (u.infoFullPath c)) :
    (s.notify E c u stamp now).2.disk.read (u.recordedPath E c (fileSum E c data) now) = some data := by
  obtain ⟨k, hk, hkdir⟩ := hcan
  obtain ⟨l, m, t, x, y, hl0, hm0, hl, hfile, hm, hnode⟩ := h.places now
  obtain ⟨d, hrename, hlocate, hnodes⟩ := moved_disk hl hfile hk hkdir hm (by rw [hnode]; simp)
  obtain ⟨-, hdisk⟩ := notify_moved stamp h hrename
  have hkm : k ≠ m := fun e => hinfo (by rw [hk, hm0, e])
  rw [hdisk]
  refine Disk.read_eq_some.mpr ⟨k, t, ?_, ?_⟩
  · rw [hlocate, u.locate_recordedPath, hplace, hk]
  · rw [hnodes, if_neg hkm, if_pos rfl]

end

section
variable {E c}

theorem TusUpload.filename_ne_nil (u : TusUpload) {md5sum : Str} (hsum : md5sum ≠ []) : u.filename c md5sum ≠ [] := by
  unfold filename
  dsimp only
  split_ifs with _ hname
  · exact List.append_ne_nil_of_left_ne_nil hsum _
  · exact hname
  · exact List.append_ne_nil_of_left_ne_nil hsum _

theorem notify_moved_found {s : Server} {u : TusUpload} {data : Str} {now : Int} (stamp : Int)
    (h : Completed E c s u data) (hcan : CanMove E c s u data now) :
    (s.notify E c u stamp now).2.getFileInfoFromLevelDB u.id =
      some (s.tusInfo E c u (fileSum E c data) stamp now).persist := by
  obtain ⟨k, hk, hkdir⟩ := hcan
  obtain ⟨l, m, t, x, y, -, -, hl, hfile, hm, hnode⟩ := h.places now
  obtain ⟨d, hrename, -, -⟩ := moved_disk hl hfile hk hkdir hm (by rw [hnode]; simp)
  rw [Server.getFileInfo_eq_some]
  simp only [Server.notify, h.bin, h.unknown, hrename]
  exact Store.get_put_self _ _ _

end

/-- A completed upload that is moved to where its record leads is read back under its id, if the
    folder and the name can be stored. -/
theorem finished_upload_reads_back (hauth : c.authUrl = []) {s : Server} {u : TusUpload} {data : Str} {now : Int} (stamp : Int)
    (h : Completed E c s u data) (hcan : CanMove E c s u data now)
    (hplace : (s.tusDisk E c u now).locate (u.fullPathIn E c c.defaultScene (fileSum E c data) now) =
      (s.tusDisk E c u now).locate (u.newFullPath E c (fileSum E c data) now))
    (hinfo : (s.tusDisk E c u now).locate (u.newFullPath E c (fileSum E c data) now) ≠ s.disk.locate (u.infoFullPath c))
    (hsum : fileSum E c data ≠ []) (hfolder : Go.valid (u.fpath2 E c now) = true)
    (hname : Go.valid (u.filename c (fileSum E c data)) = true) (downloadDomain : Str) :
    (s.notify E c u stamp now).2.getReaderExt c downloadDomain u.id = .sent data := by
  have hread := notify_moved_recorded stamp h hcan hplace hinfo
  have hout : (s.tusInfo E c u (fileSum E c data) stamp now).outname = u.filename c (fileSum E c data) :=
    if_neg (u.filename_ne_nil hsum)
  have hlegible : (s.tusInfo E c u (fileSum E c data) stamp now).Legible := ⟨hfolder, hout ▸ hname⟩
  have hpath : getFilePathByInfo c (s.tusInfo E c u (fileSum E c data) stamp now).persist =
      u.recordedPath E c (fileSum E c data) now := by
    rw [getFilePathByInfo, hlegible.fullpath, FileInfo.fullpath, hout, TusUpload.recordedPath]
    simp only [Server.tusInfo, List.append_assoc]
  exact getReaderExt_file hauth (notify_moved_found stamp h hcan) (hpath ▸ hread) downloadDomain

theorem a_finished_upload_reads_back :
    (tusNode.notify .plain tusConfig tusUpload 0 0).2.getReaderExt tusConfig [] tusUpload.id = .sent "hello".toList :=
  finished_upload_reads_back .plain tusConfig rfl 0 ⟨by decide +kernel, ⟨"{}".toList, by decide +kernel⟩, by decide +kernel⟩
    ⟨_, rfl, by decide +kernel⟩ (by decide +kernel) (by decide +kernel) (by decide +kernel)
      (by decide +kernel) (by decide +kernel) []

end GoFastdfs
