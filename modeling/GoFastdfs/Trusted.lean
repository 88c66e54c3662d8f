/-
  GoFastdfs.Trusted — the records that an upload of a known digest relies on, and what an
  upload does to their data (`upload` of `http_upload.go`).

  A run is a server with the records that its uploads and fetches still push to peers. What
  dedup may come to trust are the records in `ldb`, those that the log queue brings there,
  and those that are pushed, since a push saves its record again; of these it is what is
  stored of them, with stray bytes replaced. The steps of a run are given with what is asked
  of each of them: none removes or cuts the data of a trusted record, what is recorded leads
  to its data as it is stored, and a notification of a migrated file (`OffSet` -2), which
  saves its record at once, comes after the file.

  Proved: such an upload keeps the data of every trusted record, and the data of the record
  it saves is there (`upload_held`).
-/

import GoFastdfs.Confinement
import GoFastdfs.Held

namespace GoFastdfs

open Go (Str Arg)

variable (E : Env) (c : Config)

/-! ## Runs -/

structure Pushing where
  server : Server
  posting : List FileInfo := []

namespace Pushing

def upload (p : Pushing) (r : UploadRequest) (w : UploadDraw) : Pushing :=
  let e := p.server.upload E c r w
  ⟨e.2, e.1.recorded.toList ++ p.posting⟩

def syncFileInfo (p : Pushing) (fi : FileInfo) (host : Str) : Pushing :=
  { p with server := (p.server.syncFileInfo E c fi host).1 }

/-- A fetch that finds a newer file here pushes the record. -/
def fetch (p : Pushing) (fi : FileInfo) (w : Download) : Pushing :=
  let e := p.server.downloadFromPeer E c fi w
  ⟨e.1, (if e.2 = .newer then [fi] else []) ++ p.posting⟩

def consumerLog (p : Pushing) : Pushing := { p with server := p.server.consumerLog E }

def post (p : Pushing) (fi : FileInfo) (answer : Nat → PeerAnswer) : Pushing :=
  { p with server := (p.server.postFileToPeer E c fi answer).1 }

/-- A record that dedup trusts, or may come to trust once it is stored. -/
def Trusts (p : Pushing) (fi : FileInfo) : Prop :=
  fi.md5 ≠ [] ∧ ((∃ k, p.server.ldb.get k = some (.record fi)) ∨
    ∃ v, (⟨v, CONST_FILE_Md5_FILE_NAME⟩ ∈ p.server.queueFileLog ∨ v ∈ p.posting) ∧ fi = v.persist)

/-- The data of every such record is there. -/
def AllHeld (p : Pushing) : Prop := ∀ u, p.Trusts u → Held c p.server.disk u

end Pushing

/-! ## What a step may not touch -/

/-- Removing the path takes no trusted record's data. -/
def SparesAll (p : Pushing) (d : Disk) (path : Str) : Prop := ∀ u, p.Trusts u → d.Spares path (dataPath c u)

/-- A file of `n` bytes at the path is long enough for the extents of the trusted records
    whose pack it is. -/
def CoversAll (p : Pushing) (d : Disk) (path : Str) (n : Nat) : Prop :=
  ∀ u, p.Trusts u → 0 ≤ u.offSet → ∀ l, d.locate path = some l → d.locate (dataPath c u) = some l → u.offSet + u.size ≤ n

/-- The checks of `upload` on a file that is written and not known. -/
def RecordsUpload (s : Server) (r : UploadRequest) (fi : FileInfo) : Prop :=
  s.distinctRecord c fi.md5 = none ∧ fi.md5 ≠ [] ∧ (r.formValue "md5".toList = [] ∨ fi.md5 = r.formValue "md5".toList)

/-- A name is asked for, or without one the first number is taken or the record of it leads to
    a file. -/
def NameLeft (s : Server) (header : FileHeader) (fi : FileInfo) (w : UploadDraw) : Prop :=
  let folder := uploadFolder E c fi w.now
  askedName E c header fi w ≠ [] ∨ (withFolder s.disk folder).fileExists (folder ++ "/0_.".toList) = true ∨
    (withFolder s.disk folder).fileExists (folder ++ "/0_".toList) = true

/-- What is asked of an upload. Its file does not cut a pack. If its record is saved, the
    folder is no format, a name is left, and the path can be stored. If the digest is known, no
    trusted record's data is at the path that is removed; nor if the file is merged, and then
    that path has as many bytes as were sent. -/
structure UploadKeeps (p : Pushing) (r : UploadRequest) (w : UploadDraw) (header : FileHeader) (data : Str) (fi : FileInfo) :
    Prop where
  covers : CoversAll c p (withFolder p.server.disk (uploadFolder E c fi w.now)) (outPath E c p.server header fi w)
    (ioCopy data false w.failAfter).1.length
  leads : ∀ fi' d, saveUploadFile E c p.server header data fi w = (.ok fi', d) → RecordsUpload c p.server r fi' →
    PlainFolder E c fi w ∧ NameLeft E c p.server header fi w
  legible : ∀ fi' d, saveUploadFile E c p.server header data fi w = (.ok fi', d) → RecordsUpload c p.server r fi' →
    merges c fi'.size = false →
    Go.valid (Go.replaceFirst c.dockerDir [] (uploadFolder E c fi w.now)) = true ∧ Go.valid (askedName E c header fi w) = true
  removes : ∀ fi' d v, saveUploadFile E c p.server header data fi w = (.ok fi', d) →
    p.server.distinctRecord c fi'.md5 = some v → getFilePathByInfo c fi' ≠ getFilePathByInfo c v →
    SparesAll c p d (getFilePathByInfo c fi')
  merges : ∀ fi' d, saveUploadFile E c p.server header data fi w = (.ok fi', d) → RecordsUpload c p.server r fi' →
    merges c fi'.size = true →
    ',' ∉ c.dockerDir ++ c.peerId ∧ Go.valid c.peerId = true ∧
    (∀ x, d.read (getFilePathByInfo c fi') = some x → fi'.size ≤ x.length) ∧
      SparesAll c p (withLargeDir c d) (getFilePathByInfo c fi')

/-- What is asked of the request of a fetch on the disk `d`: no trusted record's data is at
    the temporary path, and a file of the announced size does not cut a pack. -/
structure RequestKeeps (p : Pushing) (d : Disk) (fi : FileInfo) (w : Download) : Prop where
  unanswered : w.data = none → SparesAll c p (fetchDisk c d fi) (Server.tmpPath c fi)
  answered : ∀ data, w.data = some data → SparesAll c p (tmpDisk c d fi) (Server.tmpPath c fi)
  covers : ∀ data, w.data = some data → (data.length : Int) = fi.size →
    CoversAll c p (tmpDisk c d fi) (getFilePathByInfo c fi) data.length

/-- The peer answers with the announced size, and the disk takes the file. -/
def Refetches (d : Disk) (fi : FileInfo) (w : Download) : Prop :=
  ∃ data, w.data = some data ∧ (data.length : Int) = fi.size ∧
    (Server.toFile (fetchDisk c d fi) (Server.tmpPath c fi) data w.now).2 = true ∧
    ((Server.toFile (fetchDisk c d fi) (Server.tmpPath c fi) data w.now).1.rename (Server.tmpPath c fi)
      (getFilePathByInfo c fi)).isSome = true

/-- What is asked of a fetch that comes to its request: a path that can be stored. A migrated file
    that is not newer here is removed first: then no trusted record's data is there, or it is a
    file and is fetched again. -/
structure FetchKeeps (p : Pushing) (fi : FileInfo) (w : Download) : Prop where
  legible : fi.Legible
  normal : fi.offSet < 0 → fi.offSet ≠ -2 → p.server.checkFileExistByInfo c fi = false →
    RequestKeeps c p p.server.disk fi w
  absent : fi.offSet = -2 → p.server.disk.stat (getFilePathByInfo c fi) = none → RequestKeeps c p p.server.disk fi w
  present : fi.offSet = -2 → ∀ n, p.server.disk.stat (getFilePathByInfo c fi) = some n → n.modTime w.now ≤ fi.timeStamp →
    RequestKeeps c p (p.server.osRemove (getFilePathByInfo c fi)).disk fi w ∧
      (SparesAll c p p.server.disk (getFilePathByInfo c fi) ∨
        n ≠ .dir ∧ Refetches c (p.server.osRemove (getFilePathByInfo c fi)).disk fi w)

/-- Uploads, notifications, fetches, pushes and the log consumer in any order. -/
inductive DedupStep : Pushing → Pushing → Prop
  | upload (p : Pushing) (r : UploadRequest) (w : UploadDraw) :
      (∀ header data fi, uploadForm E c r w.stamp = .ok (header, data, fi) → UploadKeeps E c p r w header data fi) →
      DedupStep p (p.upload E c r w)
  /-- The record of a migrated file is saved at once. -/
  | syncFileInfo (p : Pushing) (fi : FileInfo) (host : Str) :
      (fi.offSet = -2 → fi.md5 ≠ [] → p.server.disk.fileExists (getFilePathByInfo c fi.persist) = true) →
      DedupStep p (p.syncFileInfo E c fi host)
  | fetch (p : Pushing) (fi : FileInfo) (w : Download) :
      (c.readOnly = false → Server.outOfRetries c fi = false → FetchKeeps c p fi w) → DedupStep p (p.fetch E c fi w)
  | consumerLog (p : Pushing) : DedupStep p (p.consumerLog E)
  | post (p : Pushing) (fi : FileInfo) (answer : Nat → PeerAnswer) : (∃ v ∈ p.posting, SamePlace fi v) →
      DedupStep p (p.post E c fi answer)

section
variable {E c}

/-! ## Uploads -/

structure Saved (E : Env) (c : Config) (s : Server) (header : FileHeader) (data : Str) (fi : FileInfo) (w : UploadDraw)
    (d : Disk) (fi' : FileInfo) : Prop where
  put : ∃ l, (withFolder s.disk (uploadFolder E c fi w.now)).locate (outPath E c s header fi w) = some l ∧
    (withFolder s.disk (uploadFolder E c fi w.now)).node l ≠ some .dir ∧
    d = (withFolder s.disk (uploadFolder E c fi w.now)).put l (.file (ioCopy data false w.failAfter).1 w.now)
  name : fi'.name = (uploadPlace c (withFolder s.disk (uploadFolder E c fi w.now)) (uploadFolder E c fi w.now)
    (uploadName c header) (uploadReName E c header fi w.uuid)).2
  reName : fi'.reName = uploadReName E c header fi w.uuid
  path : fi'.path = Go.replaceFirst c.dockerDir [] (uploadFolder E c fi w.now)
  offSet : fi'.offSet = fi.offSet
  size : 0 ≤ fi'.size

theorem saveUploadFile_saved {s : Server} {header : FileHeader} {data : Str} {fi fi' : FileInfo} {w : UploadDraw} {d : Disk}
    (h : saveUploadFile E c s header data fi w = (.ok fi', d)) : Saved E c s header data fi w d fi' := by
  obtain ⟨hcopied, -, hcreate, rfl⟩ := saveUploadFile_eq_ok h
  obtain ⟨l, hl, hdir, rfl⟩ := Disk.modify_eq_some.mp hcreate
  exact ⟨⟨l, hl, hdir, by rw [hcopied]⟩, rfl, rfl, rfl, rfl, Int.natCast_nonneg _⟩

/-- A trusted record stays held while the file is written. -/
theorem saveUploadFile_held {p : Pushing} {header : FileHeader} {data : Str} {fi : FileInfo} {w : UploadDraw}
    (hc : CoversAll c p (withFolder p.server.disk (uploadFolder E c fi w.now)) (outPath E c p.server header fi w)
      (ioCopy data false w.failAfter).1.length) {u : FileInfo} (hu : p.Trusts u) (h : Held c p.server.disk u) :
    Held c (saveUploadFile E c p.server header data fi w).2 u := by
  have hfolder : Held c (withFolder p.server.disk (uploadFolder E c fi w.now)) u :=
    h.grow (withFolder_grow p.server.disk (uploadFolder E c fi w.now))
  unfold saveUploadFile
  dsimp only
  split
  · exact h
  split
  · exact hfolder
  · rename_i d' hd
    obtain ⟨l, hl, hdir, rfl⟩ := Disk.modify_eq_some.mp hd
    have hput := hfolder.put (t := w.now) hdir fun ho hloc => hc u hu ho l hl hloc
    split
    · exact hput
    split
    · exact hput
    · exact hput

/-- The record's name: the name asked for, or the number that the loop found. -/
theorem Saved.outname_cases (hdist : c.enableDistinctFile = true) {s : Server} {header : FileHeader} {data : Str}
    {fi fi' : FileInfo} {w : UploadDraw} {d : Disk} (h : Saved E c s header data fi w d fi') (hplain : PlainFolder E c fi w) :
    (fi'.outname = askedName E c header fi w ∧
      ((withFolder s.disk (uploadFolder E c fi w.now)).fileExists
          (uploadFolder E c fi w.now ++ '/' :: askedName E c header fi w) = true ∨
        outPath E c s header fi w = uploadFolder E c fi w.now ++ '/' :: askedName E c header fi w)) ∨
    askedName E c header fi w = uploadName c header ∧
      ∃ k, LoopEnds (withFolder s.disk (uploadFolder E c fi w.now)) (uploadFolder E c fi w.now) (uploadName c header) k ∧
        fi'.outname = numbered 0 k (uploadName c header) ∧
        outPath E c s header fi w = uploadFolder E c fi w.now ++ '/' :: numberedPlace (uploadName c header) k := by
  have hname := h.name
  unfold FileInfo.outname outPath askedName
  dsimp only
  rw [h.reName]
  rcases uploadPlace_cases hdist (withFolder s.disk (uploadFolder E c fi w.now)) (uploadReName E c header fi w.uuid) hplain.2
    (slash_notMem_uploadName c header) with ⟨-, hplace⟩ | ⟨htaken, k, hk, hplace⟩
  · rw [hplace] at hname ⊢
    exact Or.inl ⟨by rw [hname], Or.inr rfl⟩
  · rw [hplace] at hname ⊢
    by_cases hre : uploadReName E c header fi w.uuid = []
    · rw [if_pos hre, if_pos hre]
      exact Or.inr ⟨rfl, k, hk, hname, rfl⟩
    · -- a taken name that was asked for stays on the record
      rw [if_neg hre] at htaken
      rw [if_neg hre, if_neg hre]
      exact Or.inl ⟨rfl, Or.inl htaken⟩

/-- Where the folder is no format, the path of the record leads to a file. -/
theorem Saved.leads (hdist : c.enableDistinctFile = true) {s : Server} {header : FileHeader} {data : Str} {fi fi' : FileInfo}
    {w : UploadDraw} {d : Disk} (h : Saved E c s header data fi w d fi') (hplain : PlainFolder E c fi w)
    (hname : NameLeft E c s header fi w) : d.fileExists (getFilePathByInfo c fi') = true := by
  have hpath : getFilePathByInfo c fi' = uploadFolder E c fi w.now ++ '/' :: fi'.outname := by
    rw [getFilePathByInfo, FileInfo.fullpath, h.path, ← List.append_assoc, dockerDir_folder E c hplain.1]
  obtain ⟨l, hl, hdir, rfl⟩ := h.put
  have hkeeps : ∀ q, (withFolder s.disk (uploadFolder E c fi w.now)).fileExists q = true ∨ outPath E c s header fi w = q →
      ((withFolder s.disk (uploadFolder E c fi w.now)).put l
        (.file (ioCopy data false w.failAfter).1 w.now)).fileExists q = true := by
    intro q hq
    rw [Disk.fileExists, Disk.stat_put hdir]
    split_ifs with hloc
    · rfl
    · exact hq.resolve_right fun e => hloc (e ▸ hl)
  rw [hpath]
  refine hkeeps _ ?_
  rcases h.outname_cases hdist hplain with ⟨hout, hplace⟩ | ⟨hasked, k, hk, hout, hplace⟩
  · rw [hout]
    exact hplace
  rw [hout, hplace]
  by_cases hfirst : uploadName c header = [] ∧ k = 0
  · -- only without a name does the record miss the number
    obtain ⟨hnil, rfl⟩ := hfirst
    have hfree := hk.free (by decide)
    rw [printedPlace_numbered hplain.2 (slash_notMem_uploadName c header), numberedPlace, if_pos ⟨hnil, rfl⟩] at hfree
    rcases hname with hne | htaken | hthere
    · exact absurd (hasked.trans hnil) hne
    · exact Bool.noConfusion (hfree.symm.trans htaken)
    · rw [hnil]
      exact Or.inl hthere
  · exact Or.inr (by rw [numberedPlace, if_neg hfirst])

theorem Saved.legible (hdist : c.enableDistinctFile = true) {s : Server} {header : FileHeader} {data : Str} {fi fi' : FileInfo}
    {w : UploadDraw} {d : Disk} (h : Saved E c s header data fi w d fi') (hplain : PlainFolder E c fi w)
    (hvalid : Go.valid (Go.replaceFirst c.dockerDir [] (uploadFolder E c fi w.now)) = true ∧
      Go.valid (askedName E c header fi w) = true) : fi'.Legible := by
  refine ⟨h.path ▸ hvalid.1, ?_⟩
  rcases h.outname_cases hdist hplain with ⟨hout, -⟩ | ⟨hasked, k, -, hout, -⟩
  · exact hout ▸ hvalid.2
  · rw [hout, valid_numbered, ← hasked]
    exact hvalid.2

/-! ### Merging -/

theorem spares_append {d d' : Disk} {p q x data : Str} {now : Int} (h : d.Spares p q) (hx : d.read p = some x) {path : Str}
    (ha : d.append path data now = some d') : d'.Spares p q := by
  intro l hl _
  rw [Disk.locate_append ha] at hl
  obtain ⟨k, t, hk, hn⟩ := Disk.read_eq_some.mp hx
  obtain rfl := Option.some.inj (hk.symm.trans hl)
  obtain ⟨m, _, _, rfl, _⟩ := Disk.append_eq_some ha
  exact h k hk (by rw [Disk.remove_file hk hn]; rfl)

theorem saveSmallFile_held {p : Pushing} {d : Disk} {fi : FileInfo} {w : Draw}
    (hs : SparesAll c p (withLargeDir c d) (getFilePathByInfo c fi)) {u : FileInfo} (hu : p.Trusts u) (h : Held c d u) :
    Held c (saveSmallFile c d fi w).2 u := by
  have h0 : Held c (withLargeDir c d) u := h.grow (withLargeDir_grow c d)
  rcases saveSmallFile_cases c d fi w with e | ⟨_, e⟩ | ⟨d1, h1, e | ⟨d2, b, h2, e⟩ | ⟨d2, src, hsrc, h2, e⟩⟩
  · rw [e]
    exact h0
  · rw [e]
    exact h0
  · rw [e]
    exact h0.append h1
  · rw [e]
    exact (h0.append h1).append h2
  · rw [e]
    obtain ⟨tail, hsrc1⟩ := Disk.append_keeps h1 hsrc
    exact ((h0.append h1).append h2).remove (spares_append (spares_append (hs u hu) hsrc h1) hsrc1 h2)

/-- The data of a merged file is in the pack that its name begins with. -/
theorem dataPath_of_pack (hcomma : ',' ∉ c.dockerDir ++ c.peerId) {fi : FileInfo} (hoff : 0 ≤ fi.offSet)
    {pack : Nat} {rest : Str}
    (hpath : fi.fullpath = largePath c ++ '/' :: (Go.itoa pack ++ ',' :: rest)) :
    dataPath c fi = packPath c (Go.itoa pack) := by
  have hnot : ',' ∉ packPath c (Go.itoa pack) := by
    rw [packPath_eq, largePath]
    simp only [List.mem_append, List.mem_cons, not_or] at hcomma ⊢
    refine ⟨hcomma.1, ⟨by decide, by decide, by decide, by decide, hcomma.2⟩, by decide, ?_⟩
    exact Go.notMem_itoa (by decide) pack
  rw [dataPath, if_pos hoff, getFilePathByInfo, hpath, ← List.cons_append, ← List.append_assoc, ← List.append_assoc,
    List.append_assoc c.dockerDir, ← packPath_eq]
  exact Go.splitHead_append hnot _

theorem mergedInfo_fullpath (fi : FileInfo) (pack offset : Nat) :
    (mergedInfo c fi pack offset).fullpath = largePath c ++ '/' :: (Go.itoa pack ++ ',' ::
      (Go.itoa offset ++ ',' :: (Go.itoa (fi.size + 1) ++ ',' :: Go.pathExt fi.name))) := by
  rw [FileInfo.fullpath, mergedInfo_path, mergedInfo_outname, smallName]

/-- The record of a merged file leads to its pack once it is stored. -/
theorem dataPath_mergedInfo_persist (hcomma : ',' ∉ c.dockerDir ++ c.peerId) (hpeer : Go.valid c.peerId = true)
    (fi : FileInfo) (pack offset : Nat) :
    dataPath c (mergedInfo c fi pack offset).persist = packPath c (Go.itoa pack) := by
  have hlarge : Go.valid (largePath c) = true := (Go.valid_append (by decide) STORE_DIR_NAME _).mpr ⟨by decide,
    (Go.valid_append (by decide) LARGE_DIR_NAME _).mpr ⟨by decide, hpeer⟩⟩
  have hpath := FileInfo.persist_fullpath (mergedInfo c fi pack offset)
  rw [mergedInfo_fullpath, Go.repair_append (by decide), Go.repair_append (by decide), (Go.repair_eq_iff _).mpr hlarge,
    (Go.repair_eq_iff _).mpr (Go.valid_itoa pack)] at hpath
  exact dataPath_of_pack hcomma (Int.natCast_nonneg offset) hpath

/-- The extent of a merged file is in its pack, if the file has the size of its record. -/
theorem saveSmallFile_extent {d : Disk} {fi fi' : FileInfo} {w : Draw} (hcomma : ',' ∉ c.dockerDir ++ c.peerId)
    (hpeer : Go.valid c.peerId = true) (hsize : 0 ≤ fi.size) (hf : d.fileExists (getFilePathByInfo c fi) = true)
    (hlong : ∀ x, d.read (getFilePathByInfo c fi) = some x → fi.size ≤ x.length)
    (h : (saveSmallFile c d fi w).1 = some fi') : Held c (saveSmallFile c d fi w).2 fi'.persist := by
  have hf0 := (withLargeDir_grow c d).fileExists hf
  have hapart := saveSmallFile_apart c hf0 h
  rcases saveSmallFile_cases c d fi w with e | ⟨hno, e⟩ | ⟨d1, h1, e | ⟨d2, b, h2, e⟩ | ⟨d2, src, hsrc, h2, e⟩⟩
  · rw [e] at h
    cases h
  · rw [hf0] at hno
    cases hno
  · rw [e] at h
    cases h
  · rw [e] at h
    cases h
  · rw [e] at h ⊢
    obtain rfl := Option.some.inj h
    have hread : d.read (getFilePathByInfo c fi) = some src := by
      obtain ⟨l, n, hl, hn⟩ := Disk.fileExists_iff.mp hf
      obtain ⟨k, t, hk, hkn⟩ := Disk.read_eq_some.mp hsrc
      obtain rfl := Option.some.inj (hk.symm.trans ((withLargeDir_grow c d).locate hl))
      obtain rfl := Option.some.inj (hkn.symm.trans ((withLargeDir_grow c d).keeps k n hn))
      exact Disk.read_eq_some.mpr ⟨k, t, hl, hn⟩
    have hpack := Disk.read_append h2
    rw [Disk.read_append h1, Option.getD_some] at hpack
    obtain ⟨tail1, hsrc1⟩ := Disk.append_keeps h1 hsrc
    obtain ⟨tail2, hsrc2⟩ := Disk.append_keeps h2 hsrc1
    have hfinal : ((d2.remove (getFilePathByInfo c fi)).getD d2).read (packPath c (Go.itoa w.pack)) = _ :=
      (Disk.read_remove hsrc2 fun l hl hl' => hapart (by
        rw [Disk.locate_append h2, Disk.locate_append h1] at hl hl'
        rw [hl, hl'])).trans hpack
    obtain ⟨l, t, hl, hn⟩ := Disk.read_eq_some.mp hfinal
    generalize ((withLargeDir c d).read (packPath c (Go.itoa w.pack))).getD [] = old at hn ⊢
    refine ⟨.file (old ++ ['1'] ++ src) t, ?_, ?_⟩
    · rw [dataPath_mergedInfo_persist hcomma hpeer]
      exact Disk.stat_eq_some.mpr ⟨l, hl, hn⟩
    · intro _
      have hle := hlong src hread
      refine ⟨show 0 < fi.size + 1 by omega, ?_⟩
      show (old.length : Int) + (fi.size + 1) ≤ _
      simp only [List.length_append, List.length_cons, List.length_nil]
      omega

/-! ### One upload -/

/-- The record that is left after merging is held, and so are the others. -/
theorem merged_held (hdist : c.enableDistinctFile = true) {p : Pushing} {r : UploadRequest} {w : UploadDraw}
    {header : FileHeader} {data : Str}
    {fi fi' : FileInfo} {d d' : Disk} {o : Option FileInfo} (hk : UploadKeeps E c p r w header data fi)
    (hsave : saveUploadFile E c p.server header data fi w = (.ok fi', d)) (hrec : RecordsUpload c p.server r fi')
    (hf : d.fileExists (getFilePathByInfo c fi') = true)
    (hmerge : (if merges c fi'.size = true then saveSmallFile c d fi' w.small else (some fi', d)) = (o, d')) :
    (fi.offSet < 0 → ∀ v, o = some v → Held c d' v.persist) ∧ ∀ u, p.Trusts u → Held c d u → Held c d' u := by
  have hsaved := saveUploadFile_saved hsave
  split at hmerge
  · rename_i hm
    obtain ⟨hcomma, hpeer, hlong, hspares⟩ := hk.merges fi' d hsave hrec hm
    obtain rfl : (saveSmallFile c d fi' w.small).1 = o := congrArg Prod.fst hmerge
    obtain rfl : (saveSmallFile c d fi' w.small).2 = d' := congrArg Prod.snd hmerge
    exact ⟨fun _ v h => saveSmallFile_extent hcomma hpeer hsaved.size hf hlong h,
      fun u hu h => saveSmallFile_held hspares hu h⟩
  · rename_i hm
    cases hmerge
    refine ⟨fun ho v h => ?_, fun u _ h => h⟩
    obtain rfl := Option.some.inj h
    have hlegible := hsaved.legible hdist (hk.leads fi' d hsave hrec).1 (hk.legible fi' d hsave hrec (by simpa using hm))
    exact (samePlace_persist hlegible).held ((held_normal_iff (hsaved.offSet.trans_lt ho)).mpr hf)

/-- What an upload does to the data of trusted records, and to that of its own. -/
theorem recordUpload_held (hdist : c.enableDistinctFile = true) {p : Pushing} {r : UploadRequest} {w : UploadDraw}
    {header : FileHeader} {data : Str}
    {fi fi' : FileInfo} {d : Disk} (hk : UploadKeeps E c p r w header data fi)
    (hsave : saveUploadFile E c p.server header data fi w = (.ok fi', d)) :
    let e := ({ p.server with disk := d } : Server).recordUpload E c (r.formValue "md5".toList) r.host fi' w
    (fi.offSet < 0 → ∀ v, e.1.recorded = some v → Held c e.2.disk v.persist) ∧
      ∀ u, p.Trusts u → Held c d u → Held c e.2.disk u := by
  have hsaved := saveUploadFile_saved hsave
  intro e
  have he : e = ({ p.server with disk := d } : Server).recordUpload E c (r.formValue "md5".toList) r.host fi' w := rfl
  clear_value e
  unfold Server.recordUpload at he
  cases hv : Server.distinctRecord c { p.server with disk := d } fi'.md5 with
  | some v =>
    rw [hv] at he
    subst he
    refine ⟨fun _ v h => (by cases h), fun u hu h => ?_⟩
    dsimp only
    split
    · rename_i hne
      exact h.remove (hk.removes fi' d v hsave hv hne u hu)
    · exact h
  | none =>
    rw [hv] at he
    dsimp only at he
    split at he
    · subst he
      exact ⟨fun _ v h => (by cases h), fun u _ h => h⟩
    rename_i hne
    split at he
    · subst he
      exact ⟨fun _ v h => (by cases h), fun u _ h => h⟩
    rename_i hmd5
    have hrec : RecordsUpload c p.server r fi' := by
      refine ⟨hv, hne, ?_⟩
      by_contra hx
      exact hmd5 (not_or.mp hx)
    obtain ⟨hplain, hname⟩ := hk.leads fi' d hsave hrec
    have hf := hsaved.leads hdist hplain hname
    cases hmerge : (if merges c fi'.size = true then saveSmallFile c d fi' w.small else (some fi', d)) with
    | mk o d' =>
      have hout := merged_held hdist hk hsave hrec hf hmerge
      rw [hmerge] at he
      cases o with
      | none =>
        subst he
        exact ⟨fun _ v h => (by cases h), hout.2⟩
      | some fi'' =>
        dsimp only at he
        have hdisk : e.2.disk = d' := by
          split at he
          · rw [he]
            exact Server.saveFileMd5Log_disk E _ _ _
          · rw [he]
            exact Server.saveFileMd5Log_disk E _ _ _
        have hrecd : e.1.recorded = some fi'' := by
          split at he
          · rw [he]
            rfl
          · rw [he]
            rfl
        rw [hdisk, hrecd]
        exact hout

theorem upload_held (hdist : c.enableDistinctFile = true) {p : Pushing} {r : UploadRequest} {w : UploadDraw}
    (hk : ∀ header data fi, uploadForm E c r w.stamp = .ok (header, data, fi) → UploadKeeps E c p r w header data fi) :
    (∀ v, (p.server.upload E c r w).1.recorded = some v → Held c (p.server.upload E c r w).2.disk v.persist) ∧
      ∀ u, p.Trusts u → Held c p.server.disk u → Held c (p.server.upload E c r w).2.disk u := by
  unfold Server.upload
  cases hform : uploadForm E c r w.stamp with
  | error msg => exact ⟨fun v h => (by cases h), fun u _ h => h⟩
  | ok f =>
    obtain ⟨header, data, fi⟩ := f
    have hk := hk header data fi hform
    obtain ⟨_, hfi⟩ := uploadForm_ok E c hform
    have hoff : fi.offSet < 0 := by
      rw [hfi]
      exact show (-1 : Int) < 0 by omega
    dsimp only
    cases hsave : saveUploadFile E c p.server header data fi w with
    | mk o d =>
      have hkept : ∀ u, p.Trusts u → Held c p.server.disk u → Held c d u := by
        intro u hu h
        have := saveUploadFile_held hk.covers hu h
        rwa [hsave] at this
      cases o with
      | error msg => exact ⟨fun v h => (by cases h), hkept⟩
      | ok fi' =>
        obtain ⟨hown, hothers⟩ := recordUpload_held hdist hk hsave
        exact ⟨hown hoff, fun u hu h => hothers u hu (hkept u hu h)⟩

end

end GoFastdfs
