/-
  GoFastdfs.Traces — what a failed upload leaves behind (`upload`, `SaveUploadFile` and
  `SaveSmallFile` of `http_upload.go`).

  The file is written at its place before its size, its digest and the digest sent with it
  are looked at, and nothing takes it away again on the way out; `SaveSmallFile` leaves its
  marker and what it copied in the pack. An empty file is recorded, counted and announced
  before the answer says that its size is zero.

  Proved: of a failed upload the databases, the counters and the files of the store are as
  before, and nothing is announced, exactly if no file was created; or the upload was not
  recorded, what was left at the place was there before, and nothing was left in a pack
  (`failed_upload_traceless_iff`).
-/

import GoFastdfs.Confinement

namespace GoFastdfs

open Go (Str)

/-! ## Files by their location -/

namespace Disk

def bytesAt (d : Disk) (l : Loc) : Option Str :=
  match d.node l with
  | some (.file x _) => some x
  | _ => none

theorem bytesAt_put {d : Disk} {l : Loc} (h : d.node l ≠ some .dir) (x : Str) (t : Int) (k : Loc) :
    (d.put l (.file x t)).bytesAt k = if k = l then some x else d.bytesAt k := by
  unfold bytesAt
  rw [node_put (ne_root_of_node h)]
  by_cases hk : k = l
  · rw [if_pos hk, if_pos hk]
  · rw [if_neg hk, if_neg hk]

theorem read_eq_bytesAt {d : Disk} {p : Str} {l : Loc} (h : d.locate p = some l) : d.read p = d.bytesAt l := by
  unfold read stat bytesAt
  rw [h]
  rfl

theorem bytesAt_mkdirAll (d : Disk) (p : Str) (l : Loc) : (d.mkdirAll p).bytesAt l = d.bytesAt l := by
  have hdirs : DirGrow (fun _ => True) d (d.mkdirAll p) := mkdirs_dirGrow _ (fun _ _ => trivial) d _
  unfold bytesAt
  cases hn : d.node l with
  | some n => rw [hdirs.keeps l n hn]
  | none =>
    cases hn' : (d.mkdirAll p).node l with
    | none => rfl
    | some n =>
      cases n with
      | dir => rfl
      | file x t =>
        rw [hdirs.file hn'] at hn
        cases hn

theorem bytesAt_create {d d' : Disk} {p x : Str} {now : Int} (h : d.create p x now = some d') :
    ∃ l, d.locate p = some l ∧ ∀ k, d'.bytesAt k = if k = l then some x else d.bytesAt k := by
  obtain ⟨l, hl, hdir, rfl⟩ := modify_eq_some.mp h
  exact ⟨l, hl, bytesAt_put hdir x now⟩

theorem locate_create {d d' : Disk} {p x : Str} {now : Int} (h : d.create p x now = some d') (q : Str) :
    d'.locate q = d.locate q := by
  obtain ⟨l, _, hdir, rfl⟩ := modify_eq_some.mp h
  exact locate_put hdir x now q

theorem bytesAt_append {d d' : Disk} {p x : Str} {now : Int} (h : d.append p x now = some d') :
    ∃ l, d.locate p = some l ∧
      ∀ k, d'.bytesAt k = if k = l then some ((d.bytesAt l).getD [] ++ x) else d.bytesAt k := by
  obtain ⟨l, hl, hdir, rfl, _⟩ := append_eq_some h
  rw [read_eq_bytesAt hl]
  exact ⟨l, hl, bytesAt_put hdir _ now⟩

end Disk

variable (E : Env) (c : Config)

/-- The location lies in the store, where it is or would be made, and not in `_tmp`. -/
def InStore (d : Disk) (l : Loc) : Prop :=
  ∃ store, (d.mkdirAll c.STORE_DIR).locate c.STORE_DIR = some store ∧ store <+: l ∧ ¬ (store ++ ["_tmp".toList]) <+: l

/-! ## The exits of an upload -/

def UploadEnd.failed : UploadEnd → Bool
  | .refused _ | .empty _ => true
  | .known _ _ | .stored _ _ => false

/-- Nothing of the upload is left: not in the databases, not in the store, and nothing is
    announced. -/
structure NoTrace (s : Server) (a : UploadEnd × Server) : Prop where
  ldb : a.2.ldb = s.ldb
  logDB : a.2.logDB = s.logDB
  statMap : a.2.statMap = s.statMap
  files : ∀ l, InStore c s.disk l → a.2.disk.bytesAt l = s.disk.bytesAt l
  announced : a.1.recorded = none

def Whole (header : FileHeader) (data : Str) (w : UploadDraw) : Prop :=
  (ioCopy data false w.failAfter).2 = true ∧ (data.length : Int) = header.size

/-- The digest is empty, or another one was sent. -/
def DigestRefused (r : UploadRequest) (data : Str) : Prop :=
  fileSum E c data = [] ∨ r.formValue "md5".toList ≠ [] ∧ fileSum E c data ≠ r.formValue "md5".toList

def writtenInfo (s : Server) (header : FileHeader) (data : Str) (fi : FileInfo) (w : UploadDraw) : FileInfo :=
  let folder := uploadFolder E c fi w.now
  let reName := uploadReName E c header fi w.uuid
  { fi with
    name := (uploadPlace c (withFolder s.disk folder) folder (uploadName c header) reName).2, reName := reName
    size := data.length, md5 := fileSum E c data
    path := Go.replaceFirst c.dockerDir [] folder, peers := fi.peers ++ [s.host] }

/-- What `SaveSmallFile` appends to the pack, if it gets to it. -/
def smallAppends (d : Disk) (fi : FileInfo) (w : Draw) : Option Str :=
  let fpath := getFilePathByInfo c fi
  let d := withLargeDir c d
  let destPath := packPath c (Go.itoa w.pack)
  if d.fileExists fpath then
    match d.read fpath with
    | none => none
    | some src =>
      match d.append destPath ['1'] w.now with
      | none => none
      | some d1 =>
        let copied := ioCopy src (d.locate fpath == d.locate destPath) w.failAfter
        if (d1.append destPath copied.1 w.now).isSome then some ('1' :: copied.1) else some ['1']
  else none

/-- The upload, on the disk `d` with its file, comes to `SaveSmallFile`, which appends `b` to
    a pack at `k`. -/
structure Appends (s : Server) (r : UploadRequest) (w : UploadDraw) (header : FileHeader) (data : Str) (fi : FileInfo)
    (d : Disk) (b : Str) (k : Loc) : Prop where
  whole : Whole header data w
  digest : ¬ DigestRefused E c r data
  bytes : smallAppends c d (writtenInfo E c s header data fi w) w.small = some b
  pack : (withLargeDir c d).locate (packPath c (Go.itoa w.small.pack)) = some k

/-- An upload whose file was created, on the disk `d`, leaves no trace: it is not recorded;
    what is left at its place was there; what is left in a pack was there too, and the pack
    is the place. -/
structure Traceless (s : Server) (r : UploadRequest) (w : UploadDraw) (header : FileHeader) (data : Str) (fi : FileInfo)
    (d : Disk) : Prop where
  unrecorded : Whole header data w → ¬ DigestRefused E c r data →
    merges c data.length = true ∧ (saveSmallFile c d (writtenInfo E c s header data fi w) w.small).1 = none
  place : ∀ l, d.locate (outPath E c s header fi w) = some l → InStore c s.disk l →
    (∀ b, ¬ Appends E c s r w header data fi d b l) → s.disk.bytesAt l = some (ioCopy data false w.failAfter).1
  packPlace : ∀ l b, d.locate (outPath E c s header fi w) = some l → InStore c s.disk l →
    Appends E c s r w header data fi d b l → s.disk.bytesAt l = some (data ++ b)
  pack : ∀ k b, InStore c s.disk k → Appends E c s r w header data fi d b k →
    d.locate (outPath E c s header fi w) = some k

section
variable {E c}

theorem bytesAt_withFolder (d : Disk) (folder : Str) (l : Loc) : (withFolder d folder).bytesAt l = d.bytesAt l := by
  unfold withFolder
  split
  · rfl
  · exact d.bytesAt_mkdirAll folder l

theorem bytesAt_withLargeDir (d : Disk) (l : Loc) : (withLargeDir c d).bytesAt l = d.bytesAt l := by
  simp only [withLargeDir]
  split
  · rfl
  · exact d.bytesAt_mkdirAll _ l

/-- Once its file is created, an upload's record follows unless the file is not whole. -/
theorem saveUploadFile_created {s : Server} {header : FileHeader} {data : Str} {fi : FileInfo} {w : UploadDraw} {d : Disk}
    (hc : CreatesFile E c s header data fi w)
    (hd : (withFolder s.disk (uploadFolder E c fi w.now)).create (outPath E c s header fi w)
      (ioCopy data false w.failAfter).1 w.now = some d) :
    (Whole header data w → saveUploadFile E c s header data fi w = (.ok (writtenInfo E c s header data fi w), d)) ∧
      (¬ Whole header data w → ∃ msg, saveUploadFile E c s header data fi w = (.error msg, d)) := by
  have hext : ¬ (c.extensions.isEmpty = false ∧ c.extensions.contains
      (Go.pathExt (Go.toLower (uploadName c header))) = false) := by
    intro hp
    obtain ⟨h1, h2⟩ := hp
    rcases hc.1 with h | h
    · rw [h1] at h
      cases h
    · rw [h2] at h
      cases h
  unfold outPath at hd
  dsimp only at hd
  unfold saveUploadFile
  dsimp only
  rw [if_neg hext, hd]
  dsimp only
  constructor
  · intro hp
    obtain ⟨hcopied, hsize⟩ := hp
    rw [if_neg (by simp [hcopied]), ioCopy_ended hcopied, if_neg (not_not.mpr hsize)]
    rfl
  · intro hpart
    split
    · exact ⟨_, rfl⟩
    rename_i hcopied
    split
    · exact ⟨_, rfl⟩
    · rename_i hsize
      have hended : (ioCopy data false w.failAfter).2 = true := by simpa using hcopied
      rw [ioCopy_ended hended, not_not] at hsize
      exact absurd ⟨hended, hsize⟩ hpart

/-- What a failing `SaveSmallFile` does to the files. -/
theorem saveSmallFile_failed {d : Disk} {fi : FileInfo} {w : Draw} (h : (saveSmallFile c d fi w).1 = none) :
    (smallAppends c d fi w = none ∧ ∀ k, (saveSmallFile c d fi w).2.bytesAt k = d.bytesAt k) ∨
    ∃ b m, smallAppends c d fi w = some ('1' :: b) ∧ (withLargeDir c d).locate (packPath c (Go.itoa w.pack)) = some m ∧
      ∀ k, (saveSmallFile c d fi w).2.bytesAt k = if k = m then some ((d.bytesAt m).getD [] ++ '1' :: b) else d.bytesAt k := by
  unfold saveSmallFile at h ⊢
  unfold smallAppends
  dsimp only at h ⊢
  have hlarge := fun k => bytesAt_withLargeDir (c := c) d k
  generalize withLargeDir c d = d0 at h hlarge ⊢
  by_cases hf : d0.fileExists (getFilePathByInfo c fi) = true
  · rw [if_pos hf] at h ⊢
    rw [if_pos hf]
    cases hsrc : d0.read (getFilePathByInfo c fi) with
    | none => exact Or.inl ⟨rfl, hlarge⟩
    | some src =>
      rw [hsrc] at h
      dsimp only at h ⊢
      cases h1 : d0.append (packPath c (Go.itoa w.pack)) ['1'] w.now with
      | none => exact Or.inl ⟨rfl, hlarge⟩
      | some d1 =>
        rw [h1] at h
        dsimp only at h ⊢
        obtain ⟨m, hm, hb1⟩ := Disk.bytesAt_append h1
        cases h2 : d1.append (packPath c (Go.itoa w.pack)) (ioCopy src (d0.locate (getFilePathByInfo c fi) ==
            d0.locate (packPath c (Go.itoa w.pack))) w.failAfter).1 w.now with
        | none =>
          refine Or.inr ⟨[], m, rfl, hm, fun k => ?_⟩
          dsimp only
          rw [hb1, hlarge, hlarge]
        | some d2 =>
          rw [h2] at h
          dsimp only at h ⊢
          split at h
          · cases h
          rename_i hpart
          obtain ⟨m2, hm2, hb2⟩ := Disk.bytesAt_append h2
          rw [Disk.locate_append h1, hm] at hm2
          obtain rfl := Option.some.inj hm2
          refine Or.inr ⟨_, m, rfl, hm, fun k => ?_⟩
          rw [if_neg hpart, hb2, hb1 m, hb1 k, if_pos rfl, Option.getD_some, hlarge, hlarge]
          split
          · rw [List.append_assoc]
            rfl
          · rfl
  · rw [if_neg hf] at h
    cases h

/-- How the second half of an upload fails: the digest is refused, `SaveSmallFile` fails, or
    the file is recorded, and empty. -/
theorem recordUpload_failed {s : Server} {md5sum host : Str} {fi : FileInfo} {w : UploadDraw}
    (h : (s.recordUpload E c md5sum host fi w).1.failed = true) :
    ((fi.md5 = [] ∨ md5sum ≠ [] ∧ fi.md5 ≠ md5sum) ∧ ∃ msg, s.recordUpload E c md5sum host fi w = (.refused msg, s)) ∨
    (¬ (fi.md5 = [] ∨ md5sum ≠ [] ∧ fi.md5 ≠ md5sum) ∧
      (((merges c fi.size = true ∧ (saveSmallFile c s.disk fi w.small).1 = none) ∧ ∃ msg,
          s.recordUpload E c md5sum host fi w = (.refused msg, { s with disk := (saveSmallFile c s.disk fi w.small).2 })) ∨
        (¬ (merges c fi.size = true ∧ (saveSmallFile c s.disk fi w.small).1 = none) ∧
          (s.recordUpload E c md5sum host fi w).1.recorded ≠ none))) := by
  unfold Server.recordUpload at h ⊢
  split at h
  · cases h
  dsimp only at h ⊢
  by_cases h1 : fi.md5 = []
  · rw [if_pos h1]
    exact Or.inl ⟨Or.inl h1, _, rfl⟩
  rw [if_neg h1] at h ⊢
  by_cases h2 : md5sum ≠ [] ∧ fi.md5 ≠ md5sum
  · rw [if_pos h2]
    exact Or.inl ⟨Or.inr h2, _, rfl⟩
  rw [if_neg h2] at h ⊢
  refine Or.inr ⟨not_or.mpr ⟨h1, h2⟩, ?_⟩
  by_cases hm : merges c fi.size = true
  · rw [if_pos hm] at h ⊢
    cases hs : saveSmallFile c s.disk fi w.small with
    | mk o d =>
      cases o with
      | none => exact Or.inl ⟨⟨hm, rfl⟩, _, rfl⟩
      | some fi' =>
        refine Or.inr ⟨fun hf => (by cases hf.2), ?_⟩
        dsimp only
        split
        · exact Option.some_ne_none _
        · exact Option.some_ne_none _
  · rw [if_neg hm] at h ⊢
    refine Or.inr ⟨fun hf => hm hf.1, ?_⟩
    dsimp only
    split
    · exact Option.some_ne_none _
    · exact Option.some_ne_none _

/-- An exit that leaves the created file and nothing else. -/
theorem left_place_iff {s : Server} {r : UploadRequest} {w : UploadDraw} {header : FileHeader} {data : Str} {fi : FileInfo}
    {d : Disk} (hd : (withFolder s.disk (uploadFolder E c fi w.now)).create (outPath E c s header fi w)
      (ioCopy data false w.failAfter).1 w.now = some d)
    (hexit : Whole header data w → ¬ DigestRefused E c r data →
      merges c data.length = true ∧ (saveSmallFile c d (writtenInfo E c s header data fi w) w.small).1 = none)
    (hnone : ∀ b k, ¬ Appends E c s r w header data fi d b k) {d' : Disk} (hsame : ∀ k, d'.bytesAt k = d.bytesAt k)
    (msg : Str) : NoTrace c s (.refused msg, { s with disk := d' }) ↔ Traceless E c s r w header data fi d := by
  obtain ⟨l, hl, hbytes⟩ := Disk.bytesAt_create hd
  have hloc := Disk.locate_create hd
  constructor
  · intro h
    refine ⟨hexit, fun m hm hin _ => ?_, fun m b _ _ h' => absurd h' (hnone b m), fun m b _ h' => absurd h' (hnone b m)⟩
    rw [hloc, hl] at hm
    obtain rfl := Option.some.inj hm
    have hfile := h.files l hin
    rw [hsame, hbytes, if_pos rfl] at hfile
    exact hfile.symm
  · intro h
    refine ⟨rfl, rfl, rfl, fun k hin => ?_, rfl⟩
    show d'.bytesAt k = _
    rw [hsame, hbytes, bytesAt_withFolder]
    split
    · rename_i hk
      subst hk
      exact (h.place k ((hloc _).trans hl) hin fun b => hnone b k).symm
    · rfl

theorem Appends.unique {s : Server} {r : UploadRequest} {w : UploadDraw} {header : FileHeader} {data : Str} {fi : FileInfo}
    {d : Disk} {b b' : Str} {k k' : Loc} (h : Appends E c s r w header data fi d b k)
    (h' : Appends E c s r w header data fi d b' k') : b' = b ∧ k' = k :=
  ⟨Option.some.inj (h'.bytes.symm.trans h.bytes), Option.some.inj (h'.pack.symm.trans h.pack)⟩

/-- The exit of a `SaveSmallFile` that fails. -/
theorem left_pack_iff {s : Server} {r : UploadRequest} {w : UploadDraw} {header : FileHeader} {data : Str} {fi : FileInfo}
    {d : Disk} (hd : (withFolder s.disk (uploadFolder E c fi w.now)).create (outPath E c s header fi w)
      (ioCopy data false w.failAfter).1 w.now = some d)
    (hwhole : Whole header data w) (hdigest : ¬ DigestRefused E c r data) (hmerges : merges c data.length = true)
    (hfail : (saveSmallFile c d (writtenInfo E c s header data fi w) w.small).1 = none) (msg : Str) :
    NoTrace c s (.refused msg, { s with disk := (saveSmallFile c d (writtenInfo E c s header data fi w) w.small).2 }) ↔
      Traceless E c s r w header data fi d := by
  rcases saveSmallFile_failed hfail with ⟨hno, hsame⟩ | ⟨b, m, happ, hm, hafter⟩
  · refine left_place_iff hd (fun _ _ => ⟨hmerges, hfail⟩) (fun b k h => ?_) hsame msg
    have hb := h.bytes
    rw [hno] at hb
    cases hb
  obtain ⟨l, hl, hbytes⟩ := Disk.bytesAt_create hd
  have hplace : d.locate (outPath E c s header fi w) = some l := (Disk.locate_create hd _).trans hl
  rw [ioCopy_ended hwhole.1] at hbytes
  have happends : Appends E c s r w header data fi d ('1' :: b) m := ⟨hwhole, hdigest, happ, hm⟩
  constructor
  · intro h
    have hfile : ∀ k, InStore c s.disk k →
        (if k = m then some ((d.bytesAt m).getD [] ++ '1' :: b) else d.bytesAt k) = s.disk.bytesAt k := by
      intro k hin
      rw [← hafter]
      exact h.files k hin
    have hpack : InStore c s.disk m → m = l := by
      intro hin
      by_contra hne
      -- a pack elsewhere is longer than it was
      have hlonger := hfile m hin
      rw [if_pos rfl, hbytes, if_neg hne, bytesAt_withFolder] at hlonger
      cases hold : s.disk.bytesAt m with
      | none =>
        rw [hold] at hlonger
        cases hlonger
      | some x =>
        rw [hold, Option.getD_some] at hlonger
        exact List.cons_ne_nil _ _ (List.append_right_eq_self.mp (Option.some.inj hlonger))
    refine ⟨fun _ _ => ⟨hmerges, hfail⟩, fun k hk hin hnot => ?_, fun k b' hk hin h' => ?_, fun k b' hin h' => ?_⟩
    · obtain rfl := Option.some.inj (hplace.symm.trans hk)
      have hne : l ≠ m := fun e => hnot _ (e ▸ happends)
      have hkeeps := hfile l hin
      rw [if_neg hne, hbytes, if_pos rfl] at hkeeps
      rw [ioCopy_ended hwhole.1]
      exact hkeeps.symm
    · obtain rfl := Option.some.inj (hplace.symm.trans hk)
      obtain ⟨rfl, rfl⟩ := happends.unique h'
      have hkeeps := hfile l hin
      rw [if_pos rfl, hbytes, if_pos rfl] at hkeeps
      exact hkeeps.symm
    · obtain ⟨rfl, rfl⟩ := happends.unique h'
      rw [hpack hin]
      exact hplace
  · intro h
    refine ⟨rfl, rfl, rfl, fun k hin => ?_, rfl⟩
    show (saveSmallFile c d (writtenInfo E c s header data fi w) w.small).2.bytesAt k = _
    rw [hafter]
    by_cases hkm : k = m
    · subst hkm
      obtain rfl := Option.some.inj (hplace.symm.trans (h.pack k _ hin happends))
      rw [if_pos rfl, hbytes, if_pos rfl]
      exact (h.packPlace l _ hplace hin happends).symm
    · rw [if_neg hkm, hbytes, bytesAt_withFolder]
      split
      · rename_i hkl
        subst hkl
        have hkeeps := h.place k hplace hin fun b' h' => hkm (happends.unique h').2
        rw [ioCopy_ended hwhole.1] at hkeeps
        exact hkeeps.symm
      · rfl

theorem forall_created_iff {s : Server} {r : UploadRequest} {w : UploadDraw} {header : FileHeader} {data : Str} {fi : FileInfo}
    {d : Disk} (hc : CreatesFile E c s header data fi w)
    (hd : (withFolder s.disk (uploadFolder E c fi w.now)).create (outPath E c s header fi w)
      (ioCopy data false w.failAfter).1 w.now = some d) :
    (∀ header' data' fi' d', (Except.ok (header, data, fi) : Except Str _) = .ok (header', data', fi') →
      CreatesFile E c s header' data' fi' w →
      (withFolder s.disk (uploadFolder E c fi' w.now)).create (outPath E c s header' fi' w)
        (ioCopy data' false w.failAfter).1 w.now = some d' → Traceless E c s r w header' data' fi' d') ↔
      Traceless E c s r w header data fi d := by
  constructor
  · intro h
    exact h header data fi d rfl hc hd
  · intro h header' data' fi' d' heq _ hd'
    cases heq
    rw [hd] at hd'
    cases hd'
    exact h

end

/-- A failed upload leaves no trace exactly if it created no file, or left at its place and
    in the pack what was there. -/
theorem failed_upload_traceless_iff (s : Server) (r : UploadRequest) (w : UploadDraw)
    (h : (s.upload E c r w).1.failed = true) :
    NoTrace c s (s.upload E c r w) ↔ ∀ header data fi d, uploadForm E c r w.stamp = .ok (header, data, fi) →
      CreatesFile E c s header data fi w →
      (withFolder s.disk (uploadFolder E c fi w.now)).create (outPath E c s header fi w)
        (ioCopy data false w.failAfter).1 w.now = some d → Traceless E c s r w header data fi d := by
  unfold Server.upload at h ⊢
  cases hform : uploadForm E c r w.stamp with
  | error msg =>
    rw [hform] at h
    exact iff_of_true ⟨rfl, rfl, rfl, fun _ _ => rfl, rfl⟩ fun _ _ _ _ h' => (by cases h')
  | ok f =>
    obtain ⟨header, data, fi⟩ := f
    rw [hform] at h
    dsimp only at h ⊢
    by_cases hc : CreatesFile E c s header data fi w
    · obtain ⟨d, hd⟩ := Option.isSome_iff_exists.mp hc.2
      rw [forall_created_iff hc hd]
      obtain ⟨hok, herror⟩ := saveUploadFile_created hc hd
      by_cases hwhole : Whole header data w
      · rw [hok hwhole] at h ⊢
        dsimp only at h ⊢
        rcases recordUpload_failed h with ⟨hrefused, msg, he⟩ | ⟨hdigest, ⟨⟨hmerges, hfail⟩, msg, he⟩ | ⟨hsmall, hrec⟩⟩
        · rw [he]
          exact left_place_iff hd (fun _ h' => absurd hrefused h') (fun b k h' => h'.digest hrefused) (fun _ => rfl) msg
        · rw [he]
          exact left_pack_iff hd hwhole hdigest hmerges hfail msg
        · refine iff_of_false (fun h' => hrec h'.announced) fun h' => hsmall (h'.unrecorded hwhole hdigest)
      · obtain ⟨msg, he⟩ := herror hwhole
        rw [he]
        exact left_place_iff hd (fun h' => absurd h' hwhole) (fun b k h' => hwhole h'.whole) (fun _ => rfl) msg
    · obtain ⟨msg, hmsg, hdisk⟩ := saveUploadFile_not_created E c hc
      have hsave : saveUploadFile E c s header data fi w = (.error msg, (saveUploadFile E c s header data fi w).2) :=
        Prod.ext hmsg rfl
      rw [hsave]
      refine iff_of_true ⟨rfl, rfl, rfl, fun k _ => ?_, rfl⟩ fun header' data' fi' d heq h' => ?_
      · rcases hdisk with hdisk | hdisk
        · exact congrArg (Disk.bytesAt · k) hdisk
        · exact (congrArg (Disk.bytesAt · k) hdisk).trans (bytesAt_withFolder _ _ _)
      · cases heq
        exact absurd h' hc

/-! ## Fixed inputs -/

/-- `hello` sent with another digest: it is refused, and its file stays. An empty file is
    recorded before it is refused. -/
theorem a_refused_upload_leaves_its_file :
    let s : Server := { disk := Disk.ofFiles [] }
    let a := s.upload Env.plain uploadConfig { helloUpload with values := [("md5".toList, "0".toList)] } .sample
    let b := s.upload Env.plain uploadConfig (fileUpload "a.txt".toList [] []) .sample
    a.1 = .refused " fileInfo.Md5 and md5sum !=".toList ∧ ¬ NoTrace uploadConfig s a ∧
      b.1.failed = true ∧ ¬ NoTrace uploadConfig s b := by
  refine ⟨?_, fun h => ?_, ?_, fun h => ?_⟩
  · decide +kernel
  · have hfile := h.files ["files".toList, "default".toList, "19700101".toList, "00".toList, "00".toList, "a.txt".toList]
      ⟨["files".toList], by decide +kernel, by decide +kernel, by decide +kernel⟩
    revert hfile
    decide +kernel
  · decide +kernel
  · have hrecorded := h.announced
    revert hrecorded
    decide +kernel

/-- A file whose extension is refused. -/
theorem a_refused_extension_leaves_no_trace :
    let c := { uploadConfig with extensions := [".jpg".toList] }
    let s : Server := { disk := Disk.ofFiles [] }
    NoTrace c s (s.upload Env.plain c helloUpload .sample) := by
  refine (failed_upload_traceless_iff Env.plain { uploadConfig with extensions := [".jpg".toList] } _ helloUpload .sample
    (by decide +kernel)).mpr ?_
  intro header data fi d hform hc
  obtain ⟨hfile, -⟩ := uploadForm_ok _ _ hform
  cases hfile
  exact absurd hc.1 (by decide +kernel)

end GoFastdfs
