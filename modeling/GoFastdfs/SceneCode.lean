/-
  GoFastdfs.SceneCode — the Google codes of the scenes (`upload` and `CheckScene` of
  `http_upload.go`, `CheckDownloadAuth` of `http_download.go`, `initComponent` of `init.go`).

  A scene of the list has a secret if its entry splits in two at a colon, and then a request
  for it needs the code of the secret. Which scene a request is for is worked out apart from
  what it does: an upload is checked by the scene that its form names, and stored under
  `DefaultScene` where the form names none; a download is checked by the part of the raw
  address behind `len(Group)+2` bytes, and served from the decoded path.

  `VerifyGoogleCode` is any function here. Proved: an upload whose file is not stored is
  refused (`upload_unsaved`), and it is stored under a scene with a secret only with its
  code, exactly if the form names a scene, or `DefaultScene` has no secret, or the rest of
  the form is refused (`uploads_are_gated_iff`); no download from a
  scene with a secret passes without its code, and none is cut short of its address, exactly
  if the address is long enough and has a scene of the same secret in that place
  (`downloads_are_gated_iff`).
-/

import GoFastdfs.Auth
import GoFastdfs.Go.Path
import GoFastdfs.Reload
import GoFastdfs.Runs

namespace GoFastdfs

open Go (Str)

variable (E : Env) (c : Config)

/-- `VerifyGoogleCode` is `verify`. -/
def Env.verifying (verify : Str → Str → Int → Bool) : Env := { E with verifyGoogleCode := verify }

def Config.secrets : Store Str Str := putScenes ∅ c.scenes

/-- The configuration of a server that has started: its scenes are those of the list. -/
def Config.started : Config := { c with sceneMap := c.secrets.entries.map fun e => (e.1, e.2) }

/-- `int64(Config().DownloadTokenExpire/30)`. -/
def discrepancy : Int := c.downloadTokenExpire.tdiv 30

/-! ## Uploads -/

/-- The record of the file that `SaveUploadFile` stores for an upload. -/
def savedInfo (s : Server) (r : UploadRequest) (w : UploadDraw) : Option FileInfo :=
  match uploadForm E c r w.stamp with
  | .error _ => none
  | .ok (header, data, fi) => (saveUploadFile E c s header data fi w).1.toOption

/-- `SaveUploadFile` refuses neither the extension nor the size, and the system neither the
    place nor a byte. -/
structure Saves (s : Server) (header : FileHeader) (data : Str) (fi : FileInfo) (w : UploadDraw) : Prop where
  extension : c.extensions.isEmpty = false → c.extensions.contains (Go.pathExt (Go.toLower (uploadName c header))) = true
  copied : w.failAfter = none
  created :
    let folder := uploadFolder E c fi w.now
    let d := withFolder s.disk folder
    ∃ d', d.create (uploadPlace c d folder (uploadName c header) (uploadReName E c header fi w.uuid)).1 data w.now = some d'
  size : (data.length : Int) = header.size

/-- Nothing of the request but its scene and its code is refused. -/
structure Storable (s : Server) (r : UploadRequest) (w : UploadDraw) : Prop where
  writable : c.readOnly = false
  output : ["json".toList, "text".toList, "json2".toList].contains r.output = true
  file : ∃ header data, r.file = .ok (header, data) ∧ Saves E c s header data (r.fileInfo c w.stamp) w

/-- The address has an element behind `len(Group)+2` bytes that is a scene of this secret. -/
def NamesScene (r : Request) (secret : Str) : Prop :=
  ∃ front scene tail, r.requestURI = front ++ (scene ++ tail) ∧ front.length = c.group.length + 2 ∧ '/' ∉ scene ∧
    '?' ∉ scene ∧ (tail = [] ∨ (∃ rest, tail = '/' :: rest) ∨ ∃ query, tail = '?' :: query) ∧
    c.sceneMap.lookup scene = some secret

section
variable {E c}

theorem lookup_entries (k : Str) (l : List (Sigma fun _ : Str => Str)) :
    (l.map fun e => (e.1, e.2)).lookup k = List.dlookup k l := by
  induction l with
  | nil => rfl
  | cons e l ih =>
    rw [List.map_cons, List.lookup_cons, ih]
    by_cases hk : k = e.1
    · subst hk
      rw [beq_self_eq_true]
      exact (List.dlookup_cons_eq l e.1 e.2).symm
    · rw [beq_false_of_ne hk]
      exact (List.dlookup_cons_ne l e hk).symm

theorem lookup_started (k : Str) : c.started.sceneMap.lookup k = c.secrets.get k := lookup_entries k _

theorem checkScene_of_secret {name secret : Str} (h : c.secrets.get name = some secret) : checkScene c name = true := by
  have hmem : name ∈ sceneNames c.scenes := by
    by_contra hno
    rw [Config.secrets, get_putScenes_of_notMem _ hno, Store.get_empty] at h
    cases h
  obtain ⟨entry, hentry, hpair⟩ := List.mem_filterMap.mp hmem
  obtain ⟨x, hx, rfl⟩ := Option.map_eq_some_iff.mp hpair
  unfold scenePair at hx
  split at hx
  · rename_i name secret hsplit
    obtain rfl := Option.some.inj hx
    have hhead : Go.splitHead ':' entry = name := by rw [Go.splitHead, hsplit, List.headI_cons]
    unfold checkScene
    rw [Bool.or_eq_true, List.contains_iff_mem]
    exact Or.inr (List.mem_map.mpr ⟨entry, hentry, hhead⟩)
  · cases hx

theorem saveUploadFile_scene {s : Server} {header : FileHeader} {data : Str} {fi fi' : FileInfo} {w : UploadDraw}
    (h : (saveUploadFile E c s header data fi w).1 = .ok fi') : fi'.scene = fi.scene := by
  have hpair : saveUploadFile E c s header data fi w = (.ok fi', (saveUploadFile E c s header data fi w).2) :=
    Prod.ext h rfl
  obtain ⟨-, -, -, rfl⟩ := saveUploadFile_eq_ok hpair
  rfl

/-- What a stored upload was let through by. -/
theorem savedInfo_eq_some {s : Server} {r : UploadRequest} {w : UploadDraw} {fi : FileInfo} :
    savedInfo E c s r w = some fi ↔ c.readOnly = false ∧ checkUploadCode E c r.scene (r.formValue "code".toList) = true ∧
      ["json".toList, "text".toList, "json2".toList].contains r.output = true ∧
      checkScene c (r.fileInfo c w.stamp).scene = true ∧ ∃ header data, r.file = .ok (header, data) ∧
        (saveUploadFile E c s header data (r.fileInfo c w.stamp) w).1 = .ok fi := by
  unfold savedInfo uploadForm
  cases hro : c.readOnly
  · cases hcode : checkUploadCode E c r.scene (r.formValue "code".toList)
    · simp
    · cases hfile : r.file with
      | error msg => simp
      | ok part =>
        cases hout : ["json".toList, "text".toList, "json2".toList].contains r.output
        · simp
        · cases hscene : checkScene c (r.fileInfo c w.stamp).scene
          · simp
          · obtain ⟨header, data⟩ := part
            have htoOption : ∀ x : Except Str FileInfo, x.toOption = some fi ↔ x = .ok fi := fun x => by
              cases x <;> simp [Except.toOption]
            simp [htoOption]
  · simp

theorem upload_unsaved {s : Server} {r : UploadRequest} {w : UploadDraw} (h : savedInfo E c s r w = none) :
    ∃ msg, (s.upload E c r w).1 = .refused msg := by
  unfold savedInfo at h
  unfold Server.upload
  cases hform : uploadForm E c r w.stamp with
  | error msg => exact ⟨msg, rfl⟩
  | ok parts =>
    obtain ⟨header, data, fi⟩ := parts
    rw [hform] at h
    dsimp only at h ⊢
    cases hsave : saveUploadFile E c s header data fi w with
    | mk result d =>
      cases result with
      | error msg => exact ⟨msg, rfl⟩
      | ok fi' =>
        rw [hsave] at h
        cases h

theorem checkUploadCode_iff (hgoogle : c.enableGoogleAuth = true) {scene : Str} (hscene : scene ≠ []) (code : Str) :
    checkUploadCode E c.started scene code = true ↔
      ∀ secret, c.secrets.get scene = some secret → E.verifyGoogleCode secret code (discrepancy c) = true := by
  unfold checkUploadCode
  rw [if_pos ⟨hgoogle, hscene⟩, lookup_started]
  cases c.secrets.get scene with
  | none => simp
  | some secret => exact ⟨fun h secret' hs => Option.some.inj hs ▸ h, fun h => h secret rfl⟩

theorem saveUploadFile_ok_iff {s : Server} {header : FileHeader} {data : Str} {fi : FileInfo} {w : UploadDraw} :
    (∃ fi', (saveUploadFile E c s header data fi w).1 = .ok fi') ↔ Saves E c s header data fi w := by
  unfold saveUploadFile
  dsimp only
  by_cases hext : c.extensions.isEmpty = false ∧ c.extensions.contains (Go.pathExt (Go.toLower (uploadName c header))) = false
  · rw [if_pos hext]
    refine ⟨fun ⟨fi', h⟩ => (by cases h), fun h => ?_⟩
    have htrue := h.extension hext.1
    rw [hext.2] at htrue
    cases htrue
  · rw [if_neg hext]
    have hext' : c.extensions.isEmpty = false → c.extensions.contains (Go.pathExt (Go.toLower (uploadName c header))) = true :=
      fun h => Bool.eq_true_of_not_eq_false fun h' => hext ⟨h, h'⟩
    cases hfail : w.failAfter with
    | some k =>
      refine ⟨fun ⟨fi', h⟩ => ?_, fun h => absurd h.copied (by rw [hfail]; exact Option.some_ne_none k)⟩
      dsimp only [ioCopy] at h
      split at h
      · cases h
      · cases h
    | none =>
      have hcopy : ioCopy data false none = (data, true) := rfl
      simp only [hcopy]
      cases hcreate : (withFolder s.disk (uploadFolder E c fi w.now)).create (uploadPlace c
          (withFolder s.disk (uploadFolder E c fi w.now)) (uploadFolder E c fi w.now) (uploadName c header)
          (uploadReName E c header fi w.uuid)).1 data w.now with
      | none =>
        refine ⟨fun ⟨fi', h⟩ => (by cases h), fun h => ?_⟩
        obtain ⟨d', hd'⟩ := h.created
        rw [hcreate] at hd'
        cases hd'
      | some d' =>
        dsimp only
        rw [if_neg (fun h => Bool.false_ne_true h.symm)]
        by_cases hsize : (data.length : Int) = header.size
        · rw [if_neg (not_not_intro hsize)]
          exact ⟨fun _ => ⟨hext', hfail, ⟨d', hcreate⟩, hsize⟩, fun _ => ⟨_, rfl⟩⟩
        · rw [if_pos hsize]
          exact ⟨fun ⟨fi', h⟩ => (by cases h), fun h => absurd h.size hsize⟩

/-! The file is saved in the same way whatever the codes are. -/

theorem uploadPlace_started (d : Disk) (folder name reName : Str) :
    uploadPlace c.started d folder name reName = uploadPlace c d folder name reName := rfl

theorem saveUploadFile_verifying (verify : Str → Str → Int → Bool) (s : Server) (header : FileHeader) (data : Str)
    (fi : FileInfo) (w : UploadDraw) :
    saveUploadFile (E.verifying verify) c.started s header data fi w = saveUploadFile E c s header data fi w := by
  have hfolder : uploadFolder (E.verifying verify) c.started fi w.now = uploadFolder E c fi w.now := rfl
  have hreName : uploadReName (E.verifying verify) c.started header fi w.uuid = uploadReName E c header fi w.uuid := rfl
  have hname : uploadName c.started header = uploadName c header := rfl
  unfold saveUploadFile
  rw [hfolder, hreName, hname]
  simp only [uploadPlace_started]
  rfl

theorem fileInfo_started (r : UploadRequest) (stamp : Int) : r.fileInfo c.started stamp = r.fileInfo c stamp := rfl

/-- The record is that of the form, its scene that of the form or `DefaultScene`. -/
theorem savedInfo_verifying {verify : Str → Str → Int → Bool} {s : Server} {r : UploadRequest} {w : UploadDraw}
    {fi : FileInfo} :
    savedInfo (E.verifying verify) c.started s r w = some fi ↔
      c.readOnly = false ∧ checkUploadCode (E.verifying verify) c.started r.scene (r.formValue "code".toList) = true ∧
      ["json".toList, "text".toList, "json2".toList].contains r.output = true ∧
      checkScene c (r.fileInfo c w.stamp).scene = true ∧ ∃ header data, r.file = .ok (header, data) ∧
        (saveUploadFile E c s header data (r.fileInfo c w.stamp) w).1 = .ok fi := by
  simp only [savedInfo_eq_some, fileInfo_started, saveUploadFile_verifying]
  exact Iff.rfl

theorem storable_of_saved {verify : Str → Str → Int → Bool} {s : Server} {r : UploadRequest} {w : UploadDraw} {fi : FileInfo}
    (h : savedInfo (E.verifying verify) c.started s r w = some fi) :
    Storable E c s r w ∧ fi.scene = (r.fileInfo c w.stamp).scene := by
  obtain ⟨hro, _, hout, _, header, data, hfile, hsave⟩ := savedInfo_verifying.mp h
  exact ⟨⟨hro, hout, header, data, hfile, saveUploadFile_ok_iff.mp ⟨fi, hsave⟩⟩, saveUploadFile_scene hsave⟩

/-- A form that names a scene is stored under it, and with its code only. -/
theorem code_of_saved (hgoogle : c.enableGoogleAuth = true) {verify : Str → Str → Int → Bool} {s : Server} {r : UploadRequest}
    {w : UploadDraw} {fi : FileInfo} {secret : Str} (hscene : r.scene ≠ [])
    (hsaved : savedInfo (E.verifying verify) c.started s r w = some fi) (hsecret : c.secrets.get fi.scene = some secret) :
    verify secret (r.formValue "code".toList) (discrepancy c) = true := by
  have hfi := (storable_of_saved (E := E) hsaved).2
  have hname : (r.fileInfo c w.stamp).scene = r.scene := if_neg hscene
  have hcode := (savedInfo_verifying.mp hsaved).2.1
  rw [hfi, hname] at hsecret
  exact (checkUploadCode_iff hgoogle hscene _).mp hcode secret hsecret

/-- For every list of scenes, every `DefaultScene` and every form: whatever the codes are, an
    upload is stored under a scene with a secret only with its code, exactly if the form names
    a scene, or `DefaultScene` has no secret, or something else of the form is refused. -/
theorem uploads_are_gated_iff (hgoogle : c.enableGoogleAuth = true) (s : Server) (r : UploadRequest) (w : UploadDraw) :
    (∀ verify fi secret, savedInfo (E.verifying verify) c.started s r w = some fi →
      c.secrets.get fi.scene = some secret → verify secret (r.formValue "code".toList) (discrepancy c) = true) ↔
    r.scene ≠ [] ∨ c.secrets.get c.defaultScene = none ∨ ¬ Storable E c s r w := by
  constructor
  · intro h
    by_contra hno
    push Not at hno
    obtain ⟨hscene, hsecret, hstorable⟩ := hno
    obtain ⟨secret, hsecret⟩ := Option.ne_none_iff_exists'.mp hsecret
    obtain ⟨hro, hout, header, data, hfile, hsaves⟩ := hstorable
    obtain ⟨fi, hsave⟩ := saveUploadFile_ok_iff.mpr hsaves
    -- no code is accepted, and none is asked for
    have hdefault : (r.fileInfo c w.stamp).scene = c.defaultScene := if_pos hscene
    have hsaved : savedInfo (E.verifying fun _ _ _ => false) c.started s r w = some fi := by
      refine savedInfo_verifying.mpr ⟨hro, ?_, hout, ?_, header, data, hfile, hsave⟩
      · unfold checkUploadCode
        rw [if_neg fun hx => hx.2 hscene]
      · rw [hdefault]
        exact checkScene_of_secret hsecret
    have hfalse := h _ fi secret hsaved (by rw [saveUploadFile_scene hsave, hdefault, hsecret])
    cases hfalse
  · intro h verify fi secret hsaved hsecret
    obtain ⟨hstorable, hfi⟩ := storable_of_saved (E := E) hsaved
    rcases h with hscene | hnone | hno
    · exact code_of_saved hgoogle hscene hsaved hsecret
    · by_cases hscene : r.scene = []
      · have hdefault : (r.fileInfo c w.stamp).scene = c.defaultScene := if_pos hscene
        rw [hfi, hdefault, hnone] at hsecret
        cases hsecret
      · exact code_of_saved hgoogle hscene hsaved hsecret
    · exact absurd hstorable hno

/-! ## Downloads -/

theorem namesScene_iff {r : Request} {secret : Str} (hlen : c.group.length + 2 ≤ r.requestURI.length) :
    NamesScene c r secret ↔
      c.sceneMap.lookup (Go.splitHead '/' (Go.splitHead '?' (r.requestURI.drop (c.group.length + 2)))) = some secret := by
  constructor
  · intro h
    obtain ⟨front, scene, tail, huri, hfront, hslash, hquery, htail, hscene⟩ := h
    rw [huri, ← hfront, List.drop_left]
    rcases htail with rfl | ⟨u, rfl⟩ | ⟨u, rfl⟩
    · rwa [List.append_nil, Go.splitHead_of_notMem hquery, Go.splitHead_of_notMem hslash]
    · rwa [Go.splitHead_append_left hquery, Go.splitHead_cons (by decide), Go.splitHead_append hslash]
    · rwa [Go.splitHead_append hquery, Go.splitHead_of_notMem hslash]
  · intro h
    obtain ⟨query, hrest, hquery⟩ := Go.exists_eq_splitHead_append '?' (r.requestURI.drop (c.group.length + 2))
    obtain ⟨path, hname, hpath⟩ :=
      Go.exists_eq_splitHead_append '/' (Go.splitHead '?' (r.requestURI.drop (c.group.length + 2)))
    have hmark := Go.notMem_splitHead '?' (r.requestURI.drop (c.group.length + 2))
    generalize Go.splitHead '?' (r.requestURI.drop (c.group.length + 2)) = name at hrest hname hmark h
    refine ⟨r.requestURI.take (c.group.length + 2), Go.splitHead '/' name, path ++ query, ?_,
      List.length_take_of_le hlen, Go.notMem_splitHead '/' name, fun hm => hmark (Go.mem_of_mem_splitHead hm), ?_, h⟩
    · rw [← List.append_assoc (Go.splitHead '/' name), ← hname, ← hrest, List.take_append_drop]
    · rcases hpath with rfl | ⟨u, rfl⟩
      · rcases hquery with rfl | ⟨u, rfl⟩
        · exact Or.inl rfl
        · exact Or.inr (Or.inr ⟨u, rfl⟩)
      · exact Or.inr (Or.inl ⟨u ++ query, rfl⟩)

/-- An address below the group names the scene that it begins with. -/
theorem namesScene_of_group {r : Request} {scene rest secret : Str} (hslash : '/' ∉ scene) (hquery : '?' ∉ scene)
    (hr : r.requestURI = '/' :: (c.group ++ '/' :: (scene ++ '/' :: rest))) (h : c.sceneMap.lookup scene = some secret) :
    NamesScene c r secret := by
  refine ⟨'/' :: (c.group ++ ['/']), scene, '/' :: rest, ?_, ?_, hslash, hquery, Or.inr (Or.inl ⟨rest, rfl⟩), h⟩
  · rw [hr, List.cons_append, List.append_assoc, List.singleton_append]
  · rw [List.length_cons, List.length_append, List.length_singleton]

/-- With tokens and the address for authentication off, the code is all that is checked. -/
theorem checkDownloadAuth_code (htoken : c.downloadUseToken = false) (hurl : c.enableDownloadAuth = false ∨ c.authUrl = [])
    {s : Server} {r : Request} {auth : Bool} {now : Int} :
    checkDownloadAuth E c s r false auth now = checkGoogleCode E c r false := by
  unfold checkDownloadAuth
  have hoff : ¬ (c.enableDownloadAuth = true ∧ c.authUrl ≠ [] ∧ false = false ∧ auth = false) := by
    intro hp
    obtain ⟨hon, hne, -⟩ := hp
    rcases hurl with hoff | hnil
    · rw [hoff] at hon
      cases hon
    · exact hne hnil
  rw [if_neg hoff, if_neg (by rw [htoken]; exact fun h => Bool.false_ne_true h.1)]

theorem checkGoogleCode_panic_iff (hgoogle : c.enableGoogleAuth = true) {r : Request} :
    checkGoogleCode E c r false = .panic ↔ r.requestURI.length < c.group.length + 2 := by
  unfold checkGoogleCode
  rw [if_pos ⟨hgoogle, rfl⟩]
  by_cases hlen : r.requestURI.length < c.group.length + 2
  · rw [if_pos hlen]
    exact ⟨fun _ => hlen, fun _ => rfl⟩
  · rw [if_neg hlen]
    refine ⟨fun h => ?_, fun h => absurd h hlen⟩
    dsimp only at h
    split at h
    · split at h
      · cases h
      · cases h
    · cases h

/-- Of an address that is long enough, the code of the scene it names is asked for. -/
theorem checkGoogleCode_allow_iff (hgoogle : c.enableGoogleAuth = true) {r : Request}
    (hlen : c.group.length + 2 ≤ r.requestURI.length) :
    checkGoogleCode E c r false = .allow ↔
      ∀ secret, NamesScene c r secret → E.verifyGoogleCode secret (r.formValue "code".toList) (discrepancy c) = true := by
  simp only [namesScene_iff hlen]
  unfold checkGoogleCode
  rw [if_pos ⟨hgoogle, rfl⟩, if_neg (Nat.not_lt.mpr hlen)]
  dsimp only
  cases c.sceneMap.lookup (Go.splitHead '/' (Go.splitHead '?' (r.requestURI.drop (c.group.length + 2)))) with
  | none => exact ⟨fun _ secret h => (by cases h), fun _ => rfl⟩
  | some secret =>
    dsimp only
    by_cases hverify : E.verifyGoogleCode secret (r.formValue "code".toList) (c.downloadTokenExpire.tdiv 30) = true
    · rw [if_pos hverify]
      exact ⟨fun _ secret' h => Option.some.inj h ▸ hverify, fun _ => rfl⟩
    · rw [if_neg hverify]
      exact ⟨fun h => (by cases h), fun h => absurd (h secret rfl) hverify⟩

/-- For every request from no peer, whatever the group mode and the codes: the check indexes
    inside the address, and lets a path below a scene with a secret pass only with its code,
    exactly if the address is long enough and names a scene of the same secret. -/
theorem downloads_are_gated_iff (hgoogle : c.enableGoogleAuth = true) (htoken : c.downloadUseToken = false)
    (hurl : c.enableDownloadAuth = false ∨ c.authUrl = []) (s : Server) (r : Request) (auth : Bool) (now : Int) :
    (∀ verify, checkDownloadAuth (E.verifying verify) c s r false auth now ≠ .panic ∧
      ∀ scene secret, Go.Below (c.STORE_DIR ++ '/' :: scene) (getFilePathFromRequest c r).1 →
        c.sceneMap.lookup scene = some secret →
        checkDownloadAuth (E.verifying verify) c s r false auth now = .allow →
        verify secret (r.formValue "code".toList) (discrepancy c) = true) ↔
    c.group.length + 2 ≤ r.requestURI.length ∧
      ∀ scene secret, Go.Below (c.STORE_DIR ++ '/' :: scene) (getFilePathFromRequest c r).1 →
        c.sceneMap.lookup scene = some secret → NamesScene c r secret := by
  simp only [checkDownloadAuth_code htoken hurl]
  constructor
  · intro h
    have hlen : c.group.length + 2 ≤ r.requestURI.length := by
      by_contra hshort
      exact (h fun _ _ _ => true).1 ((checkGoogleCode_panic_iff hgoogle).mpr (Nat.lt_of_not_le hshort))
    refine ⟨hlen, fun scene secret hbelow hscene => ?_⟩
    by_contra hother
    -- every code is right but those of this secret
    have hallow : checkGoogleCode (E.verifying fun x _ _ => x != secret) c r false = .allow := by
      refine (checkGoogleCode_allow_iff hgoogle hlen).mpr fun secret' hnames => ?_
      have hne : secret' ≠ secret := fun heq => hother (heq ▸ hnames)
      exact bne_iff_ne.mpr hne
    have hself := (h fun x _ _ => x != secret).2 scene secret hbelow hscene hallow
    exact bne_iff_ne.mp hself rfl
  · intro h verify
    obtain ⟨hlen, hnames⟩ := h
    constructor
    · intro hpanic
      exact Nat.not_lt.mpr hlen ((checkGoogleCode_panic_iff hgoogle).mp hpanic)
    · intro scene secret hbelow hscene hallow
      exact (checkGoogleCode_allow_iff hgoogle hlen).mp hallow secret (hnames scene secret hbelow hscene)

end

def secretConfig : Config :=
  { uploadConfig with enableGoogleAuth := true, scenes := ["default:JBSWY3DPEHPK3PXP".toList] }

def defaultSceneUpload : UploadRequest := { helloUpload with values := [("scene".toList, "default".toList)] }

/-- With the scene in the form nothing is stored under it without the code. -/
theorem a_named_scene_is_gated :
    ¬ ∃ fi, savedInfo (Env.plain.verifying fun _ _ _ => false) secretConfig.started { disk := Disk.ofFiles [] }
      defaultSceneUpload
        .sample = some fi ∧ secretConfig.secrets.get fi.scene = some "JBSWY3DPEHPK3PXP".toList := by
  intro hstored
  obtain ⟨fi, hsaved, hsecret⟩ := hstored
  have hcode := (uploads_are_gated_iff rfl _ _ _).mpr (Or.inl (by decide)) _ fi _ hsaved hsecret
  cases hcode

/-- A form without a scene is stored under `default`, with no code. -/
theorem an_unnamed_scene_needs_no_code :
    ∃ fi result s, ({ disk := Disk.ofFiles [] } : Server).upload Env.plain secretConfig.started helloUpload .sample =
        (.stored fi result, s) ∧
      secretConfig.secrets.get fi.scene = some "JBSWY3DPEHPK3PXP".toList ∧
      Env.plain.verifyGoogleCode "JBSWY3DPEHPK3PXP".toList (helloUpload.formValue "code".toList) (discrepancy secretConfig) =
        false :=
  ⟨_, _, _, rfl, by decide +kernel, rfl⟩

def gatedConfig (supportGroupManage : Bool) : Config :=
  { dockerDir := [], group := "group1".toList, supportGroupManage := supportGroupManage, enableGoogleAuth := true
    downloadTokenExpire := 600, sceneMap := [("default".toList, "JBSWY3DPEHPK3PXP".toList)] }

def groupedRequest : Request := { requestURI := "/group1/default/a.txt".toList }

/-- Below the group, no file of the scene is given out without the code. -/
theorem a_grouped_address_is_gated :
    Go.Below ((gatedConfig true).STORE_DIR ++ '/' :: "default".toList)
        (getFilePathFromRequest (gatedConfig true) groupedRequest).1 ∧
      checkDownloadAuth (Env.plain.verifying fun _ _ _ => false) (gatedConfig true)
        (Server.fresh { cwd := [], nodes := ∅ }) groupedRequest false true 0 ≠ .allow := by
  have hbelow : Go.Below ((gatedConfig true).STORE_DIR ++ '/' :: "default".toList)
      (getFilePathFromRequest (gatedConfig true) groupedRequest).1 := by decide +kernel
  refine ⟨hbelow, fun hallow => ?_⟩
  have huri : groupedRequest.requestURI =
      '/' :: ((gatedConfig true).group ++ '/' :: ("default".toList ++ '/' :: "a.txt".toList)) := rfl
  -- there is no other scene
  have hnames : ∀ scene secret, (gatedConfig true).sceneMap.lookup scene = some secret →
      NamesScene (gatedConfig true) groupedRequest secret := by
    intro scene secret hscene
    have hdefault : scene = "default".toList := by
      by_contra hne
      rw [gatedConfig, List.lookup_cons, beq_false_of_ne hne] at hscene
      cases hscene
    subst hdefault
    exact namesScene_of_group (by decide) (by decide) huri hscene
  have hcode := ((downloads_are_gated_iff rfl rfl (Or.inl rfl) _ _ true 0).mpr
    ⟨by decide, fun scene secret _ hscene => hnames scene secret hscene⟩ _).2 "default".toList _ hbelow rfl hallow
  cases hcode

/-- Without the group in the address the scene is cut off in its place: the file is given
    out, with no code. -/
theorem an_ungrouped_address_needs_no_code :
    let r : Request := { requestURI := "/default/a.txt".toList }
    Go.Below ((gatedConfig false).STORE_DIR ++ '/' :: "default".toList) (getFilePathFromRequest (gatedConfig false) r).1 ∧
      (gatedConfig false).sceneMap.lookup "default".toList = some "JBSWY3DPEHPK3PXP".toList ∧
      checkDownloadAuth Env.plain (gatedConfig false) (Server.fresh { cwd := [], nodes := ∅ }) r false true 0 = .allow ∧
      Env.plain.verifyGoogleCode "JBSWY3DPEHPK3PXP".toList (r.formValue "code".toList) (discrepancy (gatedConfig false)) =
        false := by
  decide +kernel

end GoFastdfs
