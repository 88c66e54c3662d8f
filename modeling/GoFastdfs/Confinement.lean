/-
  GoFastdfs.Confinement — which paths uploads write and downloads read (`SaveUploadFile`
  of `http_upload.go`, `Download` of `http_download.go`, `GetFilePathFromRequest` of
  `fileserver.go`).

  An upload's path is put together from the scene, the path and the name of its form; a
  custom path that begins with the store's own text is taken as it is. A download looks
  for `..` in the raw request and decodes it afterwards. Neither looks at the path that
  comes out.

  Proved: the file of an upload is created below the store, and a download's path lies in
  it, exactly if what the client's text climbs out of it names again on its way down
  (`upload_confined_iff`, `download_confined_iff`).
-/

import GoFastdfs.Runs
import GoFastdfs.Go.Path

namespace GoFastdfs

open Go (Str)

variable (E : Env) (c : Config)

theorem name_STORE_DIR_NAME : Go.Name STORE_DIR_NAME := ⟨by decide, by decide, by decide⟩

/-! ## File names -/

theorem dotDot_infix_of_dots {s : Str} (h : "...".toList <:+: s) : "..".toList <:+: s :=
  List.IsInfix.trans ⟨[], ['.'], rfl⟩ h

theorem mem_trimFileNameSpecialChar {s : Str} {x : Char} (h : x ∈ trimFileNameSpecialChar s) :
    x ∈ s ∧ x ∉ specialChars := by
  have hmem := Go.mem_of_mem_replaceAll (Go.mem_of_mem_replaceAll h)
  simpa using List.mem_filter.mp hmem

/-- The last pass leaves no two dots together, whatever the passes before brought together. -/
theorem not_dotDot_infix_trim (s : Str) : ¬ "..".toList <:+: trimFileNameSpecialChar s :=
  Go.not_infix_replaceAll_pair '.' _

/-- A name without a character of the pattern and without `..` is left as it is. -/
theorem trimFileNameSpecialChar_of_clean {s : Str} (hchars : ∀ x ∈ s, x ∉ specialChars) (hdots : ¬ "..".toList <:+: s) :
    trimFileNameSpecialChar s = s := by
  have hfilter : s.filter (· ∉ specialChars) = s := by simpa [List.filter_eq_self] using hchars
  have hdots3 : ¬ "...".toList <:+: s := fun h => hdots (dotDot_infix_of_dots h)
  rw [trimFileNameSpecialChar, hfilter, Go.replaceAll_of_not_infix [] hdots3, Go.replaceAll_of_not_infix [] hdots]

/-- A trimmed name has no character of the pattern and no `..`, and trimming it again
    changes nothing. -/
theorem trimFileNameSpecialChar_safe (s : Str) :
    (∀ x ∈ trimFileNameSpecialChar s, x ∉ specialChars) ∧
      (∀ x ∈ ['/', '\\', ',', '%', '?', ' ', '\t', '\n'], x ∉ trimFileNameSpecialChar s) ∧
      ¬ "..".toList <:+: trimFileNameSpecialChar s ∧
      trimFileNameSpecialChar (trimFileNameSpecialChar s) = trimFileNameSpecialChar s := by
  have hchars : ∀ x ∈ trimFileNameSpecialChar s, x ∉ specialChars := fun x hx => (mem_trimFileNameSpecialChar hx).2
  have hnamed : ['/', '\\', ',', '%', '?', ' ', '\t', '\n'].all specialChars.contains = true := by decide
  refine ⟨hchars, ?_, not_dotDot_infix_trim s, trimFileNameSpecialChar_of_clean hchars (not_dotDot_infix_trim s)⟩
  intro x hx hmem
  exact hchars x hmem (List.contains_iff_mem.mp (List.all_eq_true.mp hnamed x hx))

example : trimFileNameSpecialChar "a.#.b....c/. d.txt".toList = "ab.c.d.txt".toList := by decide

/-! ## Uploads -/

def outPath (s : Server) (header : FileHeader) (fi : FileInfo) (w : UploadDraw) : Str :=
  let folder := uploadFolder E c fi w.now
  (uploadPlace c (withFolder s.disk folder) folder (uploadName c header) (uploadReName E c header fi w.uuid)).1

def CreatesFile (s : Server) (header : FileHeader) (data : Str) (fi : FileInfo) (w : UploadDraw) : Prop :=
  (c.extensions.isEmpty = true ∨ c.extensions.contains (Go.pathExt (Go.toLower (uploadName c header))) = true) ∧
    ((withFolder s.disk (uploadFolder E c fi w.now)).create (outPath E c s header fi w) (ioCopy data false w.failAfter).1
      w.now).isSome = true

theorem saveUploadFile_not_created {s : Server} {header : FileHeader} {data : Str} {fi : FileInfo} {w : UploadDraw}
    (h : ¬ CreatesFile E c s header data fi w) :
    ∃ msg, (saveUploadFile E c s header data fi w).1 = .error msg ∧
      ((saveUploadFile E c s header data fi w).2 = s.disk ∨
        (saveUploadFile E c s header data fi w).2 = withFolder s.disk (uploadFolder E c fi w.now)) := by
  unfold CreatesFile outPath at h
  unfold saveUploadFile
  dsimp only
  split
  · exact ⟨_, rfl, Or.inl rfl⟩
  rename_i hext
  split
  · exact ⟨_, rfl, Or.inr rfl⟩
  · rename_i d hd
    refine absurd ⟨?_, by rw [hd]; rfl⟩ h
    cases h1 : c.extensions.isEmpty
    · refine Or.inr ?_
      by_contra h2
      exact hext ⟨h1, by simpa using h2⟩
    · exact Or.inl rfl

def folderText (fi : FileInfo) (w : UploadDraw) : Str := (uploadFolder E c fi w.now).drop c.dockerDir.length

/-- What is printed of the folder and the name asked for. -/
def askedPlace (header : FileHeader) (fi : FileInfo) (w : UploadDraw) : Str :=
  Go.sprintf (uploadFolder E c fi w.now ++ "/%s".toList) [.str (askedName E c header fi w)]

def PrintedTaken (s : Server) (header : FileHeader) (fi : FileInfo) (w : UploadDraw) : Prop :=
  (withFolder s.disk (uploadFolder E c fi w.now)).fileExists (askedPlace E c header fi w) = true ∧ c.enableDistinctFile = true

/-- The folder and the name asked for lead below the store from `DOCKER_DIR`; of a file
    that is numbered, the folder leads into it. A folder with a `%` is a format: then it is
    what is printed that is read, of the name asked for or of the number at which the loop ends. -/
structure UploadStays (s : Server) (header : FileHeader) (fi : FileInfo) (w : UploadDraw) : Prop where
  numbered : PlainFolder E c fi w → Numbered E c s header fi w →
    Go.StaysIn c.dockerDir STORE_DIR_NAME (folderText E c fi w)
  asked : PlainFolder E c fi w → ¬ Numbered E c s header fi w →
    Go.StaysBelow c.dockerDir STORE_DIR_NAME (folderText E c fi w ++ '/' :: askedName E c header fi w)
  printed : ¬ PlainFolder E c fi w → ¬ PrintedTaken E c s header fi w →
    Go.ReadsBelow c.dockerDir STORE_DIR_NAME (askedPlace E c header fi w)
  printedNumber : ¬ PlainFolder E c fi w → PrintedTaken E c s header fi w →
    ∀ k, LoopEnds (withFolder s.disk (uploadFolder E c fi w.now)) (uploadFolder E c fi w.now) (uploadName c header) k →
      Go.ReadsBelow c.dockerDir STORE_DIR_NAME (printedPlace (uploadFolder E c fi w.now) 0 k (uploadName c header))

section
variable {E c}

theorem folderText_eq (hd : '%' ∉ c.dockerDir) (fi : FileInfo) (w : UploadDraw) :
    ∃ rest, folderText E c fi w = STORE_DIR_NAME ++ rest ∧
      uploadFolder E c fi w.now = c.dockerDir ++ folderText E c fi w := by
  obtain ⟨rest, hr⟩ := uploadFolder_eq E c hd fi w.now
  have e : folderText E c fi w = STORE_DIR_NAME ++ rest := by
    rw [folderText, hr, Config.STORE_DIR, List.append_assoc, List.drop_left]
  exact ⟨rest, e, by rw [e, hr, Config.STORE_DIR, List.append_assoc]⟩

theorem rooted_folderText (hd : '%' ∉ c.dockerDir) (fi : FileInfo) (w : UploadDraw) (t : Str) :
    Go.rooted (folderText E c fi w ++ t) = false := by
  obtain ⟨rest, hr, _⟩ := folderText_eq (E := E) hd fi w
  rw [hr]
  rfl

theorem name_numbered {name : Str} (hs : '/' ∉ name) (i : Nat) :
    Go.Name (Go.itoa i ++ '_' :: name) ∧ Go.itoa (i : Int) ++ '_' :: name ≠ ['.', '.'] := by
  have hmem : '_' ∈ Go.itoa (i : Int) ++ '_' :: name := List.mem_append_right _ List.mem_cons_self
  refine ⟨⟨by simp, ?_, slash_notMem_number hs i⟩, ?_⟩
  · intro e
    rw [e] at hmem
    exact absurd hmem (by decide)
  · intro e
    rw [e] at hmem
    exact absurd hmem (by decide)

theorem name_numberedPlace {name : Str} (hs : '/' ∉ name) (k : Nat) :
    Go.Name (numberedPlace name k) ∧ numberedPlace name k ≠ ['.', '.'] := by
  have hnumbered : ∀ (k i : Nat) {name : Str}, '/' ∉ name →
      Go.Name (numbered i k name) ∧ numbered i k name ≠ ['.', '.'] := by
    intro k
    induction k with
    | zero => exact fun i name hs => name_numbered hs i
    | succ k ih => exact fun i name hs => ih (i + 1) (slash_notMem_number hs i)
  unfold numberedPlace
  split
  · exact ⟨⟨by decide, by decide, by decide⟩, by decide⟩
  · exact hnumbered k 0 hs

/-- Where the folder is plain text, the name asked for or the numbered one stands behind it. -/
theorem outPath_eq {s : Server} {header : FileHeader} {fi : FileInfo} {w : UploadDraw} (hplain : PlainFolder E c fi w) :
    (Numbered E c s header fi w → ∃ e, Go.Name e ∧ e ≠ ['.', '.'] ∧
      outPath E c s header fi w = uploadFolder E c fi w.now ++ '/' :: e) ∧
    (¬ Numbered E c s header fi w →
      outPath E c s header fi w = uploadFolder E c fi w.now ++ '/' :: askedName E c header fi w) := by
  have hasked : askedPlace E c header fi w = uploadFolder E c fi w.now ++ '/' :: askedName E c header fi w :=
    Go.sprintf_str hplain.2 _
  unfold askedPlace askedName at hasked
  unfold outPath uploadPlace
  dsimp only
  rw [hasked]
  constructor
  · intro hn
    obtain ⟨k, -, hloop⟩ := numberLoop_ends (withFolder s.disk (uploadFolder E c fi w.now)) (uploadFolder E c fi w.now)
      (uploadFolder E c fi w.now ++ '/' :: askedName E c header fi w) (uploadName c header)
    have hs := slash_notMem_uploadName c header
    rw [printedPlace_numbered hplain.2 hs] at hloop
    obtain ⟨hname, h2⟩ := name_numberedPlace hs k
    exact ⟨_, hname, h2, (congrArg Prod.fst (if_pos hn)).trans (congrArg Prod.fst hloop)⟩
  · intro hn
    exact congrArg Prod.fst (if_neg hn)

/-- In any folder it is what is printed, of the name asked for or of the number at which the
    loop ends. -/
theorem outPath_printed {s : Server} {header : FileHeader} {fi : FileInfo} {w : UploadDraw} :
    (¬ PrintedTaken E c s header fi w → outPath E c s header fi w = askedPlace E c header fi w) ∧
    (PrintedTaken E c s header fi w →
      ∃ k, LoopEnds (withFolder s.disk (uploadFolder E c fi w.now)) (uploadFolder E c fi w.now) (uploadName c header) k ∧
        outPath E c s header fi w = printedPlace (uploadFolder E c fi w.now) 0 k (uploadName c header)) := by
  unfold outPath uploadPlace PrintedTaken askedPlace askedName
  dsimp only
  constructor
  · intro hfree
    exact congrArg Prod.fst (if_neg hfree)
  · intro htaken
    obtain ⟨k, hk, hloop⟩ := numberLoop_ends (withFolder s.disk (uploadFolder E c fi w.now)) (uploadFolder E c fi w.now)
      (Go.sprintf (uploadFolder E c fi w.now ++ "/%s".toList) [.str (if uploadReName E c header fi w.uuid = [] then
        uploadName c header else uploadReName E c header fi w.uuid)]) (uploadName c header)
    exact ⟨k, hk, (congrArg Prod.fst (if_pos htaken)).trans (congrArg Prod.fst hloop)⟩

end

/-- The file of an upload is created below the store exactly if its form's text leads there. -/
theorem upload_confined_iff (hdir : Go.DirText c.dockerDir) (s : Server) (r : UploadRequest) (w : UploadDraw) :
    ∀ header data fi, uploadForm E c r w.stamp = .ok (header, data, fi) → CreatesFile E c s header data fi w →
      (Go.Below c.STORE_DIR (outPath E c s header fi w) ↔ UploadStays E c s header fi w) := by
  intro header data fi _ _
  by_cases hplain : PlainFolder E c fi w
  · obtain ⟨_, _, hfolder⟩ := folderText_eq (E := E) hplain.1 fi w
    have hbelow : ∀ e : Str, Go.Below c.STORE_DIR (uploadFolder E c fi w.now ++ '/' :: e) ↔
        Go.StaysBelow c.dockerDir STORE_DIR_NAME (folderText E c fi w ++ '/' :: e) := by
      intro e
      rw [hfolder, List.append_assoc]
      exact Go.below_entry_iff hdir name_STORE_DIR_NAME (by decide) (rooted_folderText hplain.1 fi w _)
    by_cases hn : Numbered E c s header fi w
    · obtain ⟨e, he, h2, hout⟩ := (outPath_eq hplain).1 hn
      rw [hout, hbelow, Go.staysBelow_append_name he h2]
      exact ⟨fun h => ⟨fun _ _ => h, fun _ h' => absurd hn h', fun h' => absurd hplain h', fun h' => absurd hplain h'⟩,
        fun h => h.numbered hplain hn⟩
    · rw [(outPath_eq hplain).2 hn, hbelow]
      exact ⟨fun h => ⟨fun _ h' => absurd h' hn, fun _ _ => h, fun h' => absurd hplain h', fun h' => absurd hplain h'⟩,
        fun h => h.asked hplain hn⟩
  · have hreads := Go.below_reads_iff hdir name_STORE_DIR_NAME (by decide) (outPath E c s header fi w)
    rw [Config.STORE_DIR, hreads]
    by_cases htaken : PrintedTaken E c s header fi w
    · obtain ⟨k, hk, hout⟩ := outPath_printed.2 htaken
      rw [hout]
      constructor
      · intro h
        refine ⟨fun h' => absurd h' hplain, fun h' => absurd h' hplain, fun _ h' => absurd htaken h', fun _ _ j hj => ?_⟩
        rw [hj.unique hk]
        exact h
      · intro h
        exact h.printedNumber hplain htaken k hk
    · rw [outPath_printed.1 htaken]
      exact ⟨fun h => ⟨fun h' => absurd h' hplain, fun h' => absurd h' hplain, fun _ _ => h, fun _ h' => absurd h' htaken⟩,
        fun h => h.printed hplain htaken⟩

def sceneUpload (scene : Str) : UploadRequest :=
  { requestURI := "/upload".toList, values := [("scene".toList, scene)]
    file := .ok (⟨"a.txt".toList, 5⟩, "hello".toList) }

def sceneInfo (scene : Str) : FileInfo := (sceneUpload scene).fileInfo {} 0

/-- The scene `..`: the file is created beside the store. -/
theorem a_scene_climbs_out_of_the_store :
    let s : Server := { disk := Disk.ofFiles [] }
    uploadForm Env.plain {} (sceneUpload "..".toList) 0 = .ok (⟨"a.txt".toList, 5⟩, "hello".toList, sceneInfo "..".toList) ∧
      (s.upload Env.plain {} (sceneUpload "..".toList) .sample).2.disk.read "19700101/00/00/a.txt".toList =
        some "hello".toList ∧
      ¬ Go.Below (Config.STORE_DIR {}) (outPath Env.plain {} s ⟨"a.txt".toList, 5⟩ (sceneInfo "..".toList) .sample) := by
  refine ⟨rfl, ?_, ?_⟩
  · decide +kernel
  · decide +kernel

theorem a_plain_scene_stays :
    Go.Below (Config.STORE_DIR {})
      (outPath Env.plain {} { disk := Disk.ofFiles [] } ⟨"a.txt".toList, 5⟩ (sceneInfo "default".toList) .sample) := by
  refine (upload_confined_iff Env.plain {} (Or.inl rfl) { disk := Disk.ofFiles [] } (sceneUpload "default".toList) .sample
    ⟨"a.txt".toList, 5⟩ "hello".toList (sceneInfo "default".toList) rfl ⟨Or.inl rfl, by decide +kernel⟩).mpr ?_
  have hplain : PlainFolder Env.plain {} (sceneInfo "default".toList) .sample := ⟨by decide, by decide +kernel⟩
  refine ⟨fun _ h => absurd h.2 (by decide), fun _ _ => ?_, fun h => absurd hplain h, fun h => absurd hplain h⟩
  exact ⟨["a.txt".toList, "00".toList, "00".toList, "19700101".toList, "default".toList], by decide, Or.inr (by decide +kernel),
    by decide +kernel⟩

/-! ## Downloads -/

def asksPack (r : Request) : Bool :=
  Go.hasPrefix r.requestURI
    (if c.supportGroupManage then '/' :: (c.group ++ '/' :: (LARGE_DIR_NAME ++ ['/'])) else '/' :: (LARGE_DIR_NAME ++ ['/']))

/-- What a request names behind `DOCKER_DIR`: cut at the query, and for a merged file at
    the comma, and not decoded yet. -/
def requestText (r : Request) : Str :=
  let name := STORE_DIR_NAME ++ '/' :: Go.splitHead '?'
    (if Go.hasPrefix r.requestURI ('/' :: (c.group ++ ['/'])) then r.requestURI.drop (c.group.length + 2)
      else r.requestURI.drop 1)
  if asksPack c r then Go.splitHead ',' name else name

/-- `DOCKER_DIR` itself is cut at a comma. -/
def CutsDir (r : Request) : Prop := asksPack c r = true ∧ ',' ∈ c.dockerDir

/-- What a request names, decoded, leads into the store from `DOCKER_DIR`, or from where
    the decoded `DOCKER_DIR` is. -/
structure DownloadStays (r : Request) : Prop where
  plain : '%' ∉ c.dockerDir → ¬ CutsDir c r → ∀ p, Go.pathUnescape (requestText c r) = some p →
    Go.StaysIn c.dockerDir STORE_DIR_NAME p
  escaped : '%' ∈ c.dockerDir → ¬ CutsDir c r → ∀ d p, Go.pathUnescape c.dockerDir = some d →
    Go.pathUnescape (requestText c r) = some p → Go.Reaches d c.dockerDir STORE_DIR_NAME p
  cut : CutsDir c r → ∀ d, Go.pathUnescape (Go.splitHead ',' c.dockerDir) = some d → d = [] ∨ Go.Inside c.STORE_DIR d

section
variable {c}

theorem getFilePathFromRequest_fst (r : Request) :
    (CutsDir c r → (getFilePathFromRequest c r).1 = (Go.pathUnescape (Go.splitHead ',' c.dockerDir)).getD []) ∧
      (¬ CutsDir c r → (getFilePathFromRequest c r).1 = (Go.pathUnescape (c.dockerDir ++ requestText c r)).getD []) := by
  unfold CutsDir requestText getFilePathFromRequest
  dsimp only
  rw [List.append_assoc]
  generalize STORE_DIR_NAME ++ '/' :: Go.splitHead '?' _ = name
  by_cases hp : asksPack c r = true
  · rw [if_pos hp]
    unfold asksPack at hp
    rw [if_pos hp]
    constructor
    · intro h
      dsimp only
      rw [Go.splitHead_append_of_mem h.2]
    · intro h
      have hc : ',' ∉ c.dockerDir := fun hm => h ⟨hp, hm⟩
      dsimp only
      rw [Go.splitHead_append_left hc]
  · rw [if_neg hp]
    unfold asksPack at hp
    rw [if_neg hp]
    exact ⟨fun h => absurd h.1 hp, fun _ => rfl⟩

theorem requestText_decoded {r : Request} {p : Str} (h : Go.pathUnescape (requestText c r) = some p) :
    p ≠ [] ∧ Go.rooted p = false := by
  have hhead : ∀ t, Go.pathUnescape ('f' :: t) = some p → p ≠ [] ∧ Go.rooted p = false := by
    intro t ht
    rw [Go.pathUnescape, Go.unescape_cons false (by decide)] at ht
    obtain ⟨u, _, rfl⟩ := Option.map_eq_some_iff.mp ht
    exact ⟨List.cons_ne_nil _ _, rfl⟩
  unfold requestText at h
  have hname : STORE_DIR_NAME = 'f' :: "iles".toList := rfl
  dsimp only at h
  split at h
  · rw [hname, List.cons_append, Go.splitHead_cons (by decide)] at h
    exact hhead _ h
  · exact hhead _ h

theorem dirText_decoded {d : Str} (hdir : Go.DirText c.dockerDir) (h : Go.pathUnescape c.dockerDir = some d) :
    Go.DirText d := by
  rcases hdir with h0 | ⟨b, hb⟩
  · rw [h0] at h
    exact Or.inl (Option.some.inj h).symm
  · rw [hb, Go.pathUnescape, Go.unescape_append_slash] at h
    obtain ⟨a, _, ha⟩ := Option.bind_eq_some_iff.mp h
    exact Or.inr ⟨a, (Option.some.inj ha).symm⟩

/-- `DOCKER_DIR` and what stands behind it decode one by one. -/
theorem pathUnescape_behind (hdir : Go.DirText c.dockerDir) (t : Str) :
    Go.pathUnescape (c.dockerDir ++ t) = (Go.pathUnescape c.dockerDir).bind fun d => (Go.pathUnescape t).map (d ++ ·) := by
  rcases hdir with h0 | ⟨b, hb⟩
  · rw [h0]
    cases ht : Go.pathUnescape t <;> simp [Go.pathUnescape, Go.unescape] <;> exact ht
  · rw [hb, List.append_assoc, List.singleton_append]
    simp only [Go.pathUnescape, Go.unescape_append_slash]
    cases Go.unescape false b <;> cases Go.unescape false t <;> simp [Go.unescape]

/-- Cut at its own `,`, `DOCKER_DIR` alone is what a request is read as. -/
theorem download_cut_iff {r : Request} (hc : CutsDir c r) :
    ((getFilePathFromRequest c r).1 = [] ∨ Go.Inside c.STORE_DIR (getFilePathFromRequest c r).1) ↔ DownloadStays c r := by
  have hcut := (getFilePathFromRequest_fst (c := c) r).1 hc
  constructor
  · intro h
    refine ⟨fun _ h' => absurd hc h', fun _ h' => absurd hc h', fun _ d hd => ?_⟩
    rw [hcut, hd] at h
    exact h
  · intro h
    rw [hcut]
    cases hd : Go.pathUnescape (Go.splitHead ',' c.dockerDir) with
    | none => exact Or.inl rfl
    | some d => exact h.cut hc d hd

/-- What the decoded `DOCKER_DIR` is followed by leads into the store. -/
theorem inside_decoded_iff (hdir : Go.DirText c.dockerDir) {d p : Str} (hd : Go.pathUnescape c.dockerDir = some d)
    (hroot : Go.rooted p = false) :
    Go.Inside c.STORE_DIR (d ++ p) ↔ ('%' ∉ c.dockerDir → Go.StaysIn c.dockerDir STORE_DIR_NAME p) ∧
      ('%' ∈ c.dockerDir → Go.Reaches d c.dockerDir STORE_DIR_NAME p) := by
  by_cases he : '%' ∈ c.dockerDir
  · have hreach := Go.inside_reaches_iff (dirText_decoded hdir hd) hdir name_STORE_DIR_NAME (by decide) hroot
    exact ⟨fun h => ⟨fun he' => absurd he he', fun _ => hreach.mp h⟩, fun h => hreach.mpr (h.2 he)⟩
  · rw [Go.pathUnescape_of_notMem he] at hd
    obtain rfl := Option.some.inj hd
    have hstay := Go.inside_entry_iff hdir name_STORE_DIR_NAME (by decide) hroot
    exact ⟨fun h => ⟨fun _ => hstay.mp h, fun he' => absurd he' he⟩, fun h => hstay.mpr (h.1 he)⟩

end

/-- The path that a request is read as is empty or in the store exactly if what it names
    leads there. -/
theorem download_confined_iff (hdir : Go.DirText c.dockerDir) (r : Request) :
    ((getFilePathFromRequest c r).1 = [] ∨ Go.Inside c.STORE_DIR (getFilePathFromRequest c r).1) ↔ DownloadStays c r := by
  by_cases hc : CutsDir c r
  · exact download_cut_iff hc
  rw [(getFilePathFromRequest_fst (c := c) r).2 hc, pathUnescape_behind hdir]
  cases hd : Go.pathUnescape c.dockerDir with
  | none =>
    refine ⟨fun _ => ⟨fun he => ?_, fun _ _ d p h => ?_, fun h => absurd h hc⟩, fun _ => Or.inl rfl⟩
    · rw [Go.pathUnescape_of_notMem he] at hd
      cases hd
    · rw [hd] at h
      cases h
  | some d =>
    cases hp : Go.pathUnescape (requestText c r) with
    | none =>
      refine ⟨fun _ => ⟨fun _ _ p h => ?_, fun _ _ d p _ h => ?_, fun h => absurd h hc⟩, fun _ => Or.inl rfl⟩
      · rw [hp] at h
        cases h
      · rw [hp] at h
        cases h
    | some p =>
      obtain ⟨hne, hroot⟩ := requestText_decoded hp
      have hpath : (((some d).bind fun d => (some p).map (d ++ ·)).getD [] = [] ∨
          Go.Inside c.STORE_DIR (((some d).bind fun d => (some p).map (d ++ ·)).getD [])) ↔
          Go.Inside c.STORE_DIR (d ++ p) := or_iff_right (by simp [hne])
      rw [hpath, inside_decoded_iff hdir hd hroot]
      constructor
      · intro h
        refine ⟨fun he _ p' hp' => ?_, fun he _ d' p' hd' hp' => ?_, fun h' => absurd h' hc⟩
        · obtain rfl := Option.some.inj (hp.symm.trans hp')
          exact h.1 he
        · obtain rfl := Option.some.inj (hp.symm.trans hp')
          obtain rfl := Option.some.inj (hd.symm.trans hd')
          exact h.2 he
      · intro h
        exact ⟨fun he => h.plain he hc p hp, fun he => h.escaped he hc d p hd hp⟩

/-- `%2e%2e` is decoded after the request was searched for `..`. -/
theorem an_escaped_climb_leaves_the_store :
    let r : Request := { requestURI := "/%2e%2e/conf/cfg.json".toList }
    Go.contains r.requestURI "..".toList = false ∧
      (getFilePathFromRequest {} r).1 = "files/../conf/cfg.json".toList ∧
      ¬ Go.Inside (Config.STORE_DIR {}) (getFilePathFromRequest {} r).1 := by
  refine ⟨?_, ?_, ?_⟩
  · decide +kernel
  · decide +kernel
  · decide +kernel

theorem a_plain_request_stays :
    Go.Inside (Config.STORE_DIR {}) (getFilePathFromRequest {} { requestURI := "/default/a.txt".toList }).1 := by
  refine ((download_confined_iff (c := {}) (Or.inl rfl) { requestURI := "/default/a.txt".toList }).mpr
    ⟨fun _ _ p hp => ?_, fun he => absurd he (by decide), fun h => absurd h.2 (by decide)⟩).resolve_left (by decide +kernel)
  have hp' : Go.pathUnescape (requestText {} { requestURI := "/default/a.txt".toList }) =
      some "files/default/a.txt".toList := by
    decide +kernel
  obtain rfl := Option.some.inj (hp'.symm.trans hp)
  exact ⟨["a.txt".toList, "default".toList], Or.inr (by decide +kernel), by decide +kernel⟩

end GoFastdfs
