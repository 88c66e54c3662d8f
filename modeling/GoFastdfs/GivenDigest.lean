/-
  GoFastdfs.GivenDigest — the digest that a form gives with its file (`upload` of
  `http_upload.go`).

  The file is written and its digest taken first. With `EnableDistinctFile` on, a digest
  that is known is answered with the record found; the digest of the form is compared with
  that of the file only behind this.

  Proved: an answer other than a refusal means that the two are equal exactly if the
  digest of the file was not known, or the upload does not get as far as that
  (`digestEnforced_iff`); a file that is known is answered whatever its form gives
  (`a_known_file_is_not_compared`).
-/

import GoFastdfs.SceneCode

namespace GoFastdfs

open Go (Str)

variable (E : Env) (c : Config)

def UploadRequest.md5sum (r : UploadRequest) : Str := r.formValue "md5".toList

/-- An answer with an address, or with status ok, is for bytes of the digest given. -/
def DigestEnforced (s : Server) (r : UploadRequest) (w : UploadDraw) : Prop :=
  (s.upload E c r w).1.answered ≠ none → ∃ header data, r.file = .ok (header, data) ∧ fileSum E c data = r.md5sum

/-- The node takes uploads, the form is let through, and its file is `data` and is saved. -/
structure Takes (s : Server) (r : UploadRequest) (w : UploadDraw) (data : Str) : Prop where
  writable : c.readOnly = false
  code : checkUploadCode E c r.scene (r.formValue "code".toList) = true
  output : ["json".toList, "text".toList, "json2".toList].contains r.output = true
  scene : checkScene c (r.fileInfo c w.stamp).scene = true
  file : ∃ header, r.file = .ok (header, data) ∧ Saves E c s header data (r.fileInfo c w.stamp) w

/-- With `EnableDistinctFile` on, the digest has a record. -/
def KnownDigest (s : Server) (md5 : Str) : Prop :=
  c.enableDistinctFile = true ∧ ∃ v, s.getFileInfoFromLevelDB md5 = some v ∧ v.md5 ≠ []

section
variable {E c}

theorem distinctRecord_eq_none_iff {s : Server} {md5 : Str} : s.distinctRecord c md5 = none ↔ ¬ KnownDigest c s md5 := by
  unfold Server.distinctRecord KnownDigest
  cases c.enableDistinctFile
  · simp
  · cases s.getFileInfoFromLevelDB md5 with
    | none => simp
    | some v => simp

theorem takes_iff {s : Server} {r : UploadRequest} {w : UploadDraw} {data : Str} :
    Takes E c s r w data ↔
      ∃ fi header, savedInfo E c s r w = some fi ∧ r.file = .ok (header, data) ∧ fi.md5 = fileSum E c data := by
  constructor
  · intro h
    obtain ⟨hro, hcode, hout, hscene, header, hfile, hsaves⟩ := h
    obtain ⟨fi, hsave⟩ := saveUploadFile_ok_iff.mpr hsaves
    have hpair : saveUploadFile E c s header data (r.fileInfo c w.stamp) w =
        (.ok fi, (saveUploadFile E c s header data (r.fileInfo c w.stamp) w).2) := Prod.ext hsave rfl
    have hmd5 : fi.md5 = fileSum E c data := by
      obtain ⟨-, -, -, rfl⟩ := saveUploadFile_eq_ok hpair
      rfl
    exact ⟨fi, header, savedInfo_eq_some.mpr ⟨hro, hcode, hout, hscene, header, data, hfile, hsave⟩, hfile, hmd5⟩
  · intro h
    obtain ⟨fi, header, hsaved, hfile, -⟩ := h
    obtain ⟨hro, hcode, hout, hscene, header', data', hfile', hsave⟩ := savedInfo_eq_some.mp hsaved
    rw [hfile] at hfile'
    cases hfile'
    exact ⟨hro, hcode, hout, hscene, header, hfile, saveUploadFile_ok_iff.mp ⟨fi, hsave⟩⟩

theorem upload_of_saved {s : Server} {r : UploadRequest} {w : UploadDraw} {fi : FileInfo}
    (h : savedInfo E c s r w = some fi) :
    ∃ d, s.upload E c r w = ({ s with disk := d } : Server).recordUpload E c r.md5sum r.host fi w := by
  unfold savedInfo at h
  unfold Server.upload
  cases hform : uploadForm E c r w.stamp with
  | error msg =>
    rw [hform] at h
    cases h
  | ok parts =>
    obtain ⟨header, data, form⟩ := parts
    rw [hform] at h
    dsimp only at h ⊢
    cases hsave : saveUploadFile E c s header data form w with
    | mk result d =>
      rw [hsave] at h
      cases result with
      | error msg => cases h
      | ok fi' =>
        cases h
        exact ⟨d, rfl⟩

/-- A known digest is answered, whatever digest was given. -/
theorem recordUpload_known {s : Server} {md5sum host : Str} {fi : FileInfo} {w : UploadDraw}
    (h : KnownDigest c s fi.md5) : (s.recordUpload E c md5sum host fi w).1.answered ≠ none := by
  obtain ⟨v, hv⟩ := Option.ne_none_iff_exists'.mp (mt distinctRecord_eq_none_iff.mp (not_not_intro h))
  unfold Server.recordUpload
  rw [hv]
  exact Option.some_ne_none v

theorem md5_of_recordUpload {s : Server} {md5sum host : Str} {fi : FileInfo} {w : UploadDraw} (hmd5sum : md5sum ≠ [])
    (hnew : ¬ KnownDigest c s fi.md5) (h : (s.recordUpload E c md5sum host fi w).1.answered ≠ none) : fi.md5 = md5sum := by
  by_contra hne
  apply h
  unfold Server.recordUpload
  rw [distinctRecord_eq_none_iff.mpr hnew]
  dsimp only
  by_cases hnil : fi.md5 = []
  · rw [if_pos hnil]
    rfl
  · rw [if_neg hnil, if_pos ⟨hmd5sum, hne⟩]
    rfl

/-- The digest given is enforced exactly if, where the file is taken, its digest is the one
    given or is not known. -/
theorem digestEnforced_iff (s : Server) {r : UploadRequest} (w : UploadDraw) (hmd5sum : r.md5sum ≠ []) :
    DigestEnforced E c s r w ↔
      ∀ data, Takes E c s r w data → fileSum E c data = r.md5sum ∨ ¬ KnownDigest c s (fileSum E c data) := by
  constructor
  · intro h data htakes
    by_cases hknown : KnownDigest c s (fileSum E c data)
    · obtain ⟨fi, header, hsaved, hfile, hmd5⟩ := takes_iff.mp htakes
      obtain ⟨d, hupload⟩ := upload_of_saved hsaved
      have hanswered : (s.upload E c r w).1.answered ≠ none := by
        rw [hupload]
        exact recordUpload_known (by rw [hmd5]; exact hknown)
      obtain ⟨header', data', hfile', hsum⟩ := h hanswered
      rw [hfile] at hfile'
      cases hfile'
      exact Or.inl hsum
    · exact Or.inr hknown
  · intro h hanswered
    cases hsaved : savedInfo E c s r w with
    | none =>
      obtain ⟨msg, hrefused⟩ := upload_unsaved hsaved
      rw [hrefused] at hanswered
      exact absurd rfl hanswered
    | some fi =>
      obtain ⟨-, -, -, -, header, data, hfile, hsave⟩ := savedInfo_eq_some.mp hsaved
      obtain ⟨-, -, -, hfi⟩ := saveUploadFile_eq_ok (Prod.ext hsave rfl)
      have hmd5 : fi.md5 = fileSum E c data := by rw [hfi]
      refine ⟨header, data, hfile, ?_⟩
      rcases h data (takes_iff.mpr ⟨fi, header, hsaved, hfile, hmd5⟩) with hsum | hnew
      · exact hsum
      · obtain ⟨d, hupload⟩ := upload_of_saved hsaved
        rw [hupload] at hanswered
        rw [← hmd5] at hnew ⊢
        exact md5_of_recordUpload (s := { s with disk := d }) hmd5sum hnew hanswered

end

/-! ## Fixed inputs -/

def digestUpload (md5sum : Str) : UploadRequest where
  requestURI := "/upload".toList
  values := [("md5".toList, md5sum)]
  file := .ok (⟨"a.txt".toList, 5⟩, "hello".toList)

theorem digestEnforced_iff_new : DigestEnforced Env.plain uploadConfig emptyRun.server (digestUpload "0".toList) .sample :=
  (digestEnforced_iff emptyRun.server .sample (by decide)).mpr fun _ _ => Or.inr fun h => by
    obtain ⟨-, v, hv, -⟩ := h
    cases hv

/-- A file that is on the node is answered with its address, though the form gives the digest
    of another. -/
theorem a_known_file_is_not_compared :
    ¬ DigestEnforced Env.plain uploadConfig helloRun.server (digestUpload "0".toList) .sample := by
  intro h
  obtain ⟨header, data, hfile, hsum⟩ := h (by decide +kernel)
  cases hfile
  exact absurd hsum (by decide +kernel)

end GoFastdfs
