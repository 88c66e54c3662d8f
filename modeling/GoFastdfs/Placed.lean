/-
  GoFastdfs.Placed — whether an upload's record leads to its file (`SaveUploadFile` of
  `http_upload.go`, `GetFilePathByInfo`).

  The place of the file is printed from the folder and the name; the record keeps the
  folder, `Name` and `ReName`. Where the name asked for is taken and digests are told apart,
  the place is numbered and `Name` with it, but not `ReName`, which the record's path
  prefers; and of a name of which nothing is left the place gets the base, a dot, and `Name`
  does not.

  Proved: a successful upload's record leads to a file with the uploaded bytes, and has their
  count and digest, exactly if the name is not numbered, or is numbered without a `ReName`
  and has something left or finds its first number taken, or the record's path leads to such
  bytes anyway; of a folder that is a format, what is printed leads where the record does,
  or the record leads to such bytes (`recorded_path_iff`).
-/

import GoFastdfs.Confinement

namespace GoFastdfs

open Go (Str)

variable (E : Env) (c : Config)

def Exhausted (d : Disk) (folder name : Str) : Prop :=
  ∀ k < 10000, d.fileExists (folder ++ '/' :: numberedPlace name k) = true

/-- How the record of an upload into a plain folder comes to lead to the bytes `data`. -/
inductive RecordsPlace (E : Env) (c : Config) (s : Server) (header : FileHeader) (data : Str) (fi : FileInfo)
    (w : UploadDraw) : Prop
  | asked : ¬ Numbered E c s header fi w → RecordsPlace E c s header data fi w
  | numbered : uploadReName E c header fi w.uuid = [] → uploadName c header ≠ [] → RecordsPlace E c s header data fi w
  /-- The first number is taken, and the second one names the file and the record. -/
  | secondNumber : uploadReName E c header fi w.uuid = [] →
      (withFolder s.disk (uploadFolder E c fi w.now)).fileExists (uploadFolder E c fi w.now ++ "/0_.".toList) = true →
      RecordsPlace E c s header data fi w
  /-- The last number is written over, and `ReName` leads there. -/
  | exhausted : Exhausted (withFolder s.disk (uploadFolder E c fi w.now)) (uploadFolder E c fi w.now) (uploadName c header) →
      (withFolder s.disk (uploadFolder E c fi w.now)).locate
          (uploadFolder E c fi w.now ++ '/' :: numberedPlace (uploadName c header) 9999) =
        (withFolder s.disk (uploadFolder E c fi w.now)).locate
          (uploadFolder E c fi w.now ++ '/' :: uploadReName E c header fi w.uuid) →
      RecordsPlace E c s header data fi w
  /-- Another file with these bytes is at the record's path. -/
  | already : (withFolder s.disk (uploadFolder E c fi w.now)).read (uploadFolder E c fi w.now ++ '/' ::
        (if uploadReName E c header fi w.uuid = [] then "0_".toList else uploadReName E c header fi w.uuid)) = some data →
      RecordsPlace E c s header data fi w

def recordedPath (s : Server) (header : FileHeader) (fi : FileInfo) (w : UploadDraw) : Str :=
  let folder := uploadFolder E c fi w.now
  let reName := uploadReName E c header fi w.uuid
  c.dockerDir ++ Go.replaceFirst c.dockerDir [] folder ++ '/' ::
    (if reName = [] then (uploadPlace c (withFolder s.disk folder) folder (uploadName c header) reName).2 else reName)

/-- The path `p` leads to the place, or to a file with the same bytes. -/
def Leads (d : Disk) (data place p : Str) : Prop := d.locate place = d.locate p ∨ d.read p = some data

/-- Of a folder that is a format, what is printed of it and the name asked for, or a number,
    is where the folder's text and the name lead. -/
structure PrintsRecorded (s : Server) (header : FileHeader) (data : Str) (fi : FileInfo) (w : UploadDraw) : Prop where
  asked : let folder := uploadFolder E c fi w.now
    let d := withFolder s.disk folder
    let place := Go.sprintf (folder ++ "/%s".toList) [.str (askedName E c header fi w)]
    ¬ (d.fileExists place = true ∧ c.enableDistinctFile = true) →
      Leads d data place (c.dockerDir ++ Go.replaceFirst c.dockerDir [] folder ++ '/' :: askedName E c header fi w)
  numbered : let folder := uploadFolder E c fi w.now
    let d := withFolder s.disk folder
    let place := Go.sprintf (folder ++ "/%s".toList) [.str (askedName E c header fi w)]
    let reName := uploadReName E c header fi w.uuid
    d.fileExists place = true → c.enableDistinctFile = true → ∀ k, LoopEnds d folder (uploadName c header) k →
      Leads d data (printedPlace folder 0 k (uploadName c header))
        (c.dockerDir ++ Go.replaceFirst c.dockerDir [] folder ++ '/' ::
          (if reName = [] then numbered 0 k (uploadName c header) else reName))

section
variable {E c}

/-! ## The record -/

theorem saveUploadFile_ok {s : Server} {header : FileHeader} {data : Str} {fi fi' : FileInfo} {w : UploadDraw} {d' : Disk}
    (h : saveUploadFile E c s header data fi w = (.ok fi', d')) :
    (withFolder s.disk (uploadFolder E c fi w.now)).create (outPath E c s header fi w) data w.now = some d' ∧
      getFilePathByInfo c fi' = recordedPath E c s header fi w ∧ fi'.size = data.length ∧ fi'.md5 = fileSum E c data := by
  obtain ⟨-, -, hcreate, rfl⟩ := saveUploadFile_eq_ok h
  refine ⟨hcreate, ?_, rfl, rfl⟩
  simp only [getFilePathByInfo, FileInfo.fullpath, FileInfo.outname, recordedPath, List.append_assoc]

theorem read_create_iff {d d' : Disk} {p q data : Str} {now : Int} (h : d.create p data now = some d') :
    d'.read q = some data ↔ d.locate p = d.locate q ∨ d.read q = some data := by
  obtain ⟨l, hl, hdir, rfl⟩ := Disk.modify_eq_some.mp h
  rw [Disk.read_put hdir]
  by_cases hq : d.locate q = some l
  · simp [hq, hl]
  · rw [if_neg hq, hl]
    constructor
    · exact Or.inr
    · intro hcase
      rcases hcase with h | h
      · exact absurd h.symm hq
      · exact h

/-- The place of an upload leads to its record's path exactly if what is printed does. -/
theorem outPath_leads_iff (s : Server) (header : FileHeader) (data : Str) (fi : FileInfo) (w : UploadDraw) :
    Leads (withFolder s.disk (uploadFolder E c fi w.now)) data (outPath E c s header fi w)
        (recordedPath E c s header fi w) ↔ PrintsRecorded E c s header data fi w := by
  unfold outPath recordedPath
  dsimp only
  by_cases htaken : (withFolder s.disk (uploadFolder E c fi w.now)).fileExists
      (Go.sprintf (uploadFolder E c fi w.now ++ "/%s".toList) [.str (askedName E c header fi w)]) = true ∧
      c.enableDistinctFile = true
  · obtain ⟨k, hk, hloop⟩ := numberLoop_ends (withFolder s.disk (uploadFolder E c fi w.now))
      (uploadFolder E c fi w.now)
      (Go.sprintf (uploadFolder E c fi w.now ++ "/%s".toList) [.str (askedName E c header fi w)]) (uploadName c header)
    have hplace : uploadPlace c (withFolder s.disk (uploadFolder E c fi w.now)) (uploadFolder E c fi w.now)
        (uploadName c header) (uploadReName E c header fi w.uuid) = _ := (if_pos htaken).trans hloop
    rw [hplace]
    constructor
    · intro h
      refine ⟨fun hfree => absurd htaken hfree, fun _ _ j hj => ?_⟩
      rw [hj.unique hk]
      exact h
    · intro h
      exact h.numbered htaken.1 htaken.2 k hk
  · have hplace : uploadPlace c (withFolder s.disk (uploadFolder E c fi w.now)) (uploadFolder E c fi w.now)
        (uploadName c header) (uploadReName E c header fi w.uuid) = _ := if_neg htaken
    rw [hplace]
    constructor
    · intro h
      exact ⟨fun _ => h, fun h1 h2 => absurd ⟨h1, h2⟩ htaken⟩
    · intro h
      exact h.asked htaken

theorem uploadFolder_ne (hd : '%' ∉ c.dockerDir) (fi : FileInfo) (w : UploadDraw) : uploadFolder E c fi w.now ≠ [] := by
  obtain ⟨rest, hr⟩ := uploadFolder_eq E c hd fi w.now
  rw [hr, Config.STORE_DIR]
  simp [STORE_DIR_NAME]

theorem leads_unnamed_iff {s : Server} {header : FileHeader} {data : Str} {fi : FileInfo} {w : UploadDraw} {k : Nat}
    (hplain : PlainFolder E c fi w) (hn : Numbered E c s header fi w) (hre : uploadReName E c header fi w.uuid = [])
    (hk : LoopEnds (withFolder s.disk (uploadFolder E c fi w.now)) (uploadFolder E c fi w.now) (uploadName c header) k)
    (hloc : ∃ l, (withFolder s.disk (uploadFolder E c fi w.now)).locate
      (uploadFolder E c fi w.now ++ '/' :: numberedPlace (uploadName c header) k) = some l) :
    Leads (withFolder s.disk (uploadFolder E c fi w.now)) data
        (uploadFolder E c fi w.now ++ '/' :: numberedPlace (uploadName c header) k)
        (uploadFolder E c fi w.now ++ '/' :: numbered 0 k (uploadName c header)) ↔
      RecordsPlace E c s header data fi w := by
  have hprinted := printedPlace_numbered hplain.2 (slash_notMem_uploadName c header)
  by_cases hname : uploadName c header = []
  · have htaken := hk.taken 0
    have hfree := hk.free
    rw [hprinted] at htaken hfree
    rw [hname] at htaken hfree hloc ⊢
    cases k with
    | zero =>
      obtain ⟨l, hl⟩ := hloc
      have hne := Disk.locate_child_ne (uploadFolder_ne hplain.1 fi w) ⟨by decide, by decide, by decide, by decide⟩
        ⟨by decide, by decide, by decide, by decide⟩ (by decide : "0_.".toList ≠ "0_".toList) hl
      constructor
      · intro hcase
        rcases hcase with h | h
        · exact absurd (h.symm.trans hl) hne
        · refine .already ?_
          rw [if_pos hre]
          exact h
      · intro hcase
        rcases hcase with h | ⟨_, h⟩ | ⟨_, h⟩ | ⟨h, _⟩ | h
        · exact absurd hn h
        · exact absurd hname h
        · exact Bool.noConfusion ((hfree (by omega)).symm.trans h)
        · have h0 := h 0 (by omega)
          rw [hname] at h0
          exact Bool.noConfusion ((hfree (by omega)).symm.trans h0)
        · rw [if_pos hre] at h
          exact Or.inr h
    | succ k =>
      exact iff_of_true (Or.inl rfl) (.secondNumber hre (htaken (by omega)))
  · have hsame : numberedPlace (uploadName c header) k = numbered 0 k (uploadName c header) := if_neg fun h => hname h.1
    rw [hsame]
    exact iff_of_true (Or.inl rfl) (.numbered hre hname)

/-- Where the loop ends at a place that is taken, it is the last one, and all are. -/
theorem LoopEnds.exhausted {d : Disk} {folder name : Str} {k : Nat} (h : LoopEnds d folder name k) (hf : '%' ∉ folder)
    (hn : '/' ∉ name) (hexists : d.fileExists (folder ++ '/' :: numberedPlace name k) = true) :
    k = 9999 ∧ Exhausted d folder name := by
  have hprinted := printedPlace_numbered hf hn
  have htaken := h.taken
  have hfree := h.free
  simp only [hprinted] at htaken hfree
  have hlast : k = 9999 := by
    have := h.bound
    by_contra hk
    exact Bool.noConfusion ((hfree (by omega)).symm.trans hexists)
  subst hlast
  refine ⟨rfl, fun j hj => ?_⟩
  by_cases hj' : j = 9999
  · rw [hj']
    exact hexists
  · exact htaken j (by omega)

/-- Of a number taken for a file with a `ReName`, which is taken itself. -/
theorem leads_named_iff {s : Server} {header : FileHeader} {data : Str} {fi : FileInfo} {w : UploadDraw} {k : Nat}
    (hplain : PlainFolder E c fi w) (hn : Numbered E c s header fi w) (hre : uploadReName E c header fi w.uuid ≠ [])
    (hk : LoopEnds (withFolder s.disk (uploadFolder E c fi w.now)) (uploadFolder E c fi w.now) (uploadName c header) k)
    (hloc : ∃ l, (withFolder s.disk (uploadFolder E c fi w.now)).locate
      (uploadFolder E c fi w.now ++ '/' :: numberedPlace (uploadName c header) k) = some l) :
    Leads (withFolder s.disk (uploadFolder E c fi w.now)) data
        (uploadFolder E c fi w.now ++ '/' :: numberedPlace (uploadName c header) k)
        (uploadFolder E c fi w.now ++ '/' :: uploadReName E c header fi w.uuid) ↔
      RecordsPlace E c s header data fi w := by
  have halready : (withFolder s.disk (uploadFolder E c fi w.now)).read
      (uploadFolder E c fi w.now ++ '/' :: uploadReName E c header fi w.uuid) = some data →
      RecordsPlace E c s header data fi w := by
    intro h
    refine .already ?_
    rw [if_neg hre]
    exact h
  by_cases hexists : (withFolder s.disk (uploadFolder E c fi w.now)).fileExists
      (uploadFolder E c fi w.now ++ '/' :: numberedPlace (uploadName c header) k) = true
  · -- all the numbers are taken, and the loop ends at the last one
    obtain ⟨rfl, hall⟩ := hk.exhausted hplain.2 (slash_notMem_uploadName c header) hexists
    constructor
    · intro hcase
      rcases hcase with h | h
      · exact .exhausted hall h
      · exact halready h
    · intro hcase
      rcases hcase with h | ⟨h, _⟩ | ⟨h, _⟩ | ⟨_, h⟩ | h
      · exact absurd hn h
      · exact absurd h hre
      · exact absurd h hre
      · exact Or.inl h
      · rw [if_neg hre] at h
        exact Or.inr h
  · -- the place is free, and that of `ReName` is not
    have hne : (withFolder s.disk (uploadFolder E c fi w.now)).locate
        (uploadFolder E c fi w.now ++ '/' :: numberedPlace (uploadName c header) k) ≠
        (withFolder s.disk (uploadFolder E c fi w.now)).locate
          (uploadFolder E c fi w.now ++ '/' :: uploadReName E c header fi w.uuid) := by
      intro h
      have hasked := hn.1
      rw [askedName, if_neg hre, Disk.fileExists, Disk.stat, ← h] at hasked
      exact hexists hasked
    constructor
    · intro hcase
      rcases hcase with h | h
      · exact absurd h hne
      · exact halready h
    · intro hcase
      rcases hcase with h | ⟨h, _⟩ | ⟨h, _⟩ | ⟨h, _⟩ | h
      · exact absurd hn h
      · exact absurd h hre
      · exact absurd h hre
      · exact absurd (h k hk.bound) hexists
      · rw [if_neg hre] at h
        exact Or.inr h

/-- In a folder without `%` what is printed is the folder and a name. -/
theorem printsRecorded_plain_iff {s : Server} {header : FileHeader} {data : Str} {fi : FileInfo} {w : UploadDraw}
    (hplain : PlainFolder E c fi w)
    (hloc : ∃ l, (withFolder s.disk (uploadFolder E c fi w.now)).locate (outPath E c s header fi w) = some l) :
    PrintsRecorded E c s header data fi w ↔ RecordsPlace E c s header data fi w := by
  have hfolder := dockerDir_folder E c hplain.1 fi w.now
  have hasked : Go.sprintf (uploadFolder E c fi w.now ++ "/%s".toList) [.str (askedName E c header fi w)] =
      uploadFolder E c fi w.now ++ '/' :: askedName E c header fi w := Go.sprintf_str hplain.2 _
  rw [← outPath_leads_iff]
  unfold recordedPath
  dsimp only
  rw [hfolder]
  by_cases hn : Numbered E c s header fi w
  · obtain ⟨k, hk, hloop⟩ := numberLoop_ends (withFolder s.disk (uploadFolder E c fi w.now))
      (uploadFolder E c fi w.now)
      (Go.sprintf (uploadFolder E c fi w.now ++ "/%s".toList) [.str (askedName E c header fi w)]) (uploadName c header)
    have hplace : uploadPlace c (withFolder s.disk (uploadFolder E c fi w.now)) (uploadFolder E c fi w.now)
        (uploadName c header) (uploadReName E c header fi w.uuid) =
        (uploadFolder E c fi w.now ++ '/' :: numberedPlace (uploadName c header) k, numbered 0 k (uploadName c header)) := by
      rw [← printedPlace_numbered hplain.2 (slash_notMem_uploadName c header), ← hloop]
      refine if_pos ?_
      unfold askedName at hasked
      rw [hasked]
      exact hn
    unfold outPath at hloc ⊢
    dsimp only at hloc ⊢
    rw [hplace] at hloc ⊢
    by_cases hre : uploadReName E c header fi w.uuid = []
    · rw [if_pos hre]
      exact leads_unnamed_iff hplain hn hre hk hloc
    · rw [if_neg hre]
      exact leads_named_iff hplain hn hre hk hloc
  · have hplace : uploadPlace c (withFolder s.disk (uploadFolder E c fi w.now)) (uploadFolder E c fi w.now)
        (uploadName c header) (uploadReName E c header fi w.uuid) =
        (uploadFolder E c fi w.now ++ '/' :: askedName E c header fi w, uploadName c header) := by
      unfold askedName at hasked ⊢
      unfold uploadPlace
      dsimp only
      rw [hasked]
      exact if_neg hn
    unfold outPath
    dsimp only
    rw [hplace]
    exact iff_of_true (Or.inl rfl) (.asked hn)

end

/-- The record of a successful upload leads to the bytes that were sent exactly if the number
    got into it, or it leads to such bytes anyway. -/
theorem recorded_path_iff {s : Server} {header : FileHeader} {data : Str} {fi fi' : FileInfo} {w : UploadDraw} {d' : Disk}
    (h : saveUploadFile E c s header data fi w = (.ok fi', d')) :
    (d'.read (getFilePathByInfo c fi') = some data ∧ fi'.size = data.length ∧ fi'.md5 = fileSum E c data) ↔
      (PlainFolder E c fi w → RecordsPlace E c s header data fi w) ∧
        (¬ PlainFolder E c fi w → PrintsRecorded E c s header data fi w) := by
  obtain ⟨hcreate, hpath, hsize, hmd5⟩ := saveUploadFile_ok h
  have hloc : ∃ l, (withFolder s.disk (uploadFolder E c fi w.now)).locate (outPath E c s header fi w) = some l := by
    obtain ⟨l, hl, _⟩ := Disk.modify_eq_some.mp hcreate
    exact ⟨l, hl⟩
  have hreads : (d'.read (getFilePathByInfo c fi') = some data ∧ fi'.size = data.length ∧ fi'.md5 = fileSum E c data) ↔
      PrintsRecorded E c s header data fi w := by
    rw [← outPath_leads_iff, hpath, read_create_iff hcreate]
    exact and_iff_left ⟨hsize, hmd5⟩
  rw [hreads]
  by_cases hplain : PlainFolder E c fi w
  · rw [printsRecorded_plain_iff hplain hloc]
    exact ⟨fun h => ⟨fun _ => h, fun h' => absurd hplain h'⟩, fun h => h.1 hplain⟩
  · exact ⟨fun h => ⟨fun h' => absurd h' hplain, fun _ => h⟩, fun h => h.2 hplain⟩

/-- `hello` uploaded as `a.txt` for the name `b.txt`, which an older file has. -/
theorem the_record_leads_to_the_older_file :
    let s : Server := { disk := Disk.ofFiles [("files/default/19700101/00/00/b.txt".toList, "older".toList)] }
    let r := fileUpload "a.txt".toList "b.txt".toList "hello".toList
    ∃ fi d, saveUploadFile Env.plain uploadConfig s ⟨"a.txt".toList, 5⟩ "hello".toList (r.fileInfo uploadConfig 0) .sample =
        (.ok fi, d) ∧
      d.read (getFilePathByInfo uploadConfig fi) = some "older".toList ∧
      d.read "files/default/19700101/00/00/0_a.txt".toList = some "hello".toList := by
  refine ⟨_, _, rfl, ?_, ?_⟩
  · decide +kernel
  · decide +kernel

/-- Nothing is in the way. -/
theorem the_record_leads_to_the_new_file :
    let s : Server := { disk := Disk.ofFiles [] }
    let r := fileUpload "a.txt".toList "b.txt".toList "hello".toList
    ∃ fi d, saveUploadFile Env.plain uploadConfig s ⟨"a.txt".toList, 5⟩ "hello".toList (r.fileInfo uploadConfig 0) .sample =
        (.ok fi, d) ∧ d.read (getFilePathByInfo uploadConfig fi) = some "hello".toList := by
  have hsave : ∃ fi d, saveUploadFile Env.plain uploadConfig { disk := Disk.ofFiles [] } ⟨"a.txt".toList, 5⟩ "hello".toList
      ((fileUpload "a.txt".toList "b.txt".toList "hello".toList).fileInfo uploadConfig 0) .sample = (.ok fi, d) := ⟨_, _, rfl⟩
  obtain ⟨fi, d, h⟩ := hsave
  refine ⟨fi, d, h, ((recorded_path_iff _ _ h).mpr ⟨fun _ => .asked fun hn => ?_, fun hplain => ?_⟩).1⟩
  · exact absurd hn.1 (by decide +kernel)
  · exact absurd ⟨by decide, by decide +kernel⟩ hplain

end GoFastdfs
