/-
  GoFastdfs.Request — requests, the files they name, and the addresses handed out
  (`GetFilePathFromRequest`, `ParseSmallFile`, `BuildFileResult` of `fileserver.go`).

  A merged small file is named by text inside its pack: pack number, offset, length and
  extension, separated by commas. The name is written into the address as it is and
  read back out of the raw request line, query included.

  Proved: for the address of a merged file, with any query behind it that has no `/`,
  the request names the file's pack (`getFilePathFromRequest_small`), its offset and its
  length (`parseSmallFile_small`). The address of a file on its own is read back as its path
  unless its first element reads as the pack directory or, where addresses carry no group,
  as the group (`published_resolves_iff`). Without a download domain the first call's host
  is kept for all later addresses (`earlier_results_matter_iff`).
-/

import GoFastdfs.Server
import GoFastdfs.Go.Url

namespace GoFastdfs

open Go (Str)

/-- A request as the handlers read it; `body` holds the parameters of a form body. -/
structure Request where
  requestURI : Str
  body : List (Str × Str) := []
  host : Str := []

def Request.formValue (r : Request) (key : Str) : Str :=
  ((r.body ++ Go.parseQuery (Go.rawQuery r.requestURI)).lookup key).getD []

variable (c : Config)

/-- `GetFilePathFromRequest`: the path on disk, and for a merged file the path with its
    whole name. -/
def getFilePathFromRequest (r : Request) : Str × Str :=
  let fullpath :=
    if Go.hasPrefix r.requestURI ('/' :: (c.group ++ ['/'])) then r.requestURI.drop (c.group.length + 2)
    else r.requestURI.drop 1
  let fullpath := c.dockerDir ++ STORE_DIR_NAME ++ '/' :: Go.splitHead '?' fullpath
  let largePrefix :=
    if c.supportGroupManage then '/' :: (c.group ++ '/' :: (LARGE_DIR_NAME ++ ['/'])) else '/' :: (LARGE_DIR_NAME ++ ['/'])
  if Go.hasPrefix r.requestURI largePrefix then
    ((Go.pathUnescape (Go.splitHead ',' fullpath)).getD [], fullpath)
  else ((Go.pathUnescape fullpath).getD [], [])

/-- `ParseSmallFile`: pack, offset and length, or an error. -/
def parseSmallFile (filename : Str) : Option (Str × Int × Int) :=
  if filename.length < 3 then none else
  match (Go.afterLast '/' filename).splitOn ',' with
  | pos0 :: pos1 :: pos2 :: _ =>
    match Go.parseInt pos1, Go.parseInt pos2 with
    | (offset, true), (length, true) =>
      if length > CONST_SMALL_FILE_SIZE ∨ offset < 0 then none else some (pos0, offset, length)
    | _, _ => none
  | _ => none

structure FileResult where
  url : Str := []
  md5 : Str := []
  path : Str := []
  domain : Str := []
  scene : Str := []
  size : Int := 0
  modTime : Int := 0
  scenes : Str := []
  src : Str := []
  deriving DecidableEq, Repr

/-- The part of the address after the host (`p` in `BuildFileResult`). -/
def resultPath (fi : FileInfo) : Str :=
  let p := Go.replaceFirst (STORE_DIR_NAME ++ ['/']) [] fi.path
  if c.supportGroupManage then c.group ++ '/' :: (p ++ '/' :: fi.outname) else p ++ '/' :: fi.outname

def downloadQuery (fi : FileInfo) : Str := "?name=".toList ++ Go.pathEscape fi.name ++ "&download=1".toList

/-- `BuildFileResult`, with `r.Host` or no request; also the download domain it leaves in
    the configuration. -/
def buildFileResult (downloadDomain : Str) (fi : FileInfo) (host : Option Str) : FileResult × Str :=
  let protocol := if c.enableHttps then "https".toList else "http".toList
  let host := host.getD (Go.replaceAll "http://".toList [] c.host)
  let downloadDomain :=
    if Go.hasPrefix downloadDomain "http".toList then downloadDomain
    else if downloadDomain = [] then protocol ++ "://".toList ++ host
    else protocol ++ "://".toList ++ downloadDomain
  let domain := if downloadDomain ≠ [] then downloadDomain else protocol ++ "://".toList ++ host
  let p := resultPath c fi
  let downloadUrl :=
    if downloadDomain ≠ [] then downloadDomain ++ '/' :: p else protocol ++ "://".toList ++ host ++ '/' :: p
  ({ url := if c.defaultDownload then downloadUrl ++ downloadQuery fi else downloadUrl
     md5 := fi.md5, path := '/' :: p, domain := domain, scene := fi.scene, size := fi.size
     modTime := fi.timeStamp, scenes := fi.scene, src := '/' :: p }, downloadDomain)

@[simp] theorem buildFileResult_path (dom : Str) (fi : FileInfo) (host : Option Str) :
    (buildFileResult c dom fi host).1.path = '/' :: resultPath c fi := rfl

/-! ## Addresses of merged files -/

def smallName (pack : Str) (offset size : Int) (ext : Str) : Str :=
  pack ++ ',' :: (Go.itoa offset ++ ',' :: (Go.itoa size ++ ',' :: ext))

/-- What is asked of the names in the configuration for merged files. -/
structure SmallNames (c : Config) : Prop where
  group_ne : c.group ≠ LARGE_DIR_NAME
  group_slash : '/' ∉ c.group
  peerId_slash : '/' ∉ c.peerId
  plain : ∀ x ∈ [',', '?', '%'], x ∉ c.peerId ∧ x ∉ c.group ∧ x ∉ c.dockerDir

def largePath : Str := STORE_DIR_NAME ++ '/' :: (LARGE_DIR_NAME ++ '/' :: c.peerId)

def packPath (pack : Str) : Str := c.LARGE_DIR ++ '/' :: (c.peerId ++ '/' :: pack)

theorem packPath_eq (pack : Str) : packPath c pack = c.dockerDir ++ (largePath c ++ '/' :: pack) := by
  have : "/haystack".toList = '/' :: LARGE_DIR_NAME := rfl
  simp only [packPath, largePath, Config.LARGE_DIR, Config.STORE_DIR, this, List.append_assoc, List.cons_append]

theorem resultPath_small {fi : FileInfo} (hp : fi.path = largePath c) :
    resultPath c fi = (if c.supportGroupManage then c.group ++ ['/'] else []) ++
      (LARGE_DIR_NAME ++ '/' :: (c.peerId ++ '/' :: fi.outname)) := by
  have : fi.path = (STORE_DIR_NAME ++ ['/']) ++ (LARGE_DIR_NAME ++ '/' :: c.peerId) := by
    rw [hp, largePath]; simp
  unfold resultPath
  rw [this, Go.replaceFirst_append]
  split <;> simp

theorem drop_group (u : Str) : ('/' :: (c.group ++ '/' :: u)).drop (c.group.length + 2) = u := by
  have hlen : c.group.length + 1 = (c.group ++ ['/']).length := by simp
  have e : c.group ++ '/' :: u = (c.group ++ ['/']) ++ u := by simp
  rw [List.drop_succ_cons, hlen, e, List.drop_left]

/-- A request for an address below the pack directory: what follows the host, cut at the
    store's own name. -/
theorem getFilePathFromRequest_large (hc : SmallNames c) {r : Request} {rest : Str}
    (hr : r.requestURI = '/' :: ((if c.supportGroupManage then c.group ++ ['/'] else []) ++
      (LARGE_DIR_NAME ++ '/' :: (c.peerId ++ '/' :: rest)))) :
    getFilePathFromRequest c r =
      let full := c.dockerDir ++ (STORE_DIR_NAME ++ '/' ::
        Go.splitHead '?' (LARGE_DIR_NAME ++ '/' :: (c.peerId ++ '/' :: rest)))
      ((Go.pathUnescape (Go.splitHead ',' full)).getD [], full) := by
  unfold getFilePathFromRequest
  by_cases hg : c.supportGroupManage = true
  · simp only [hg, if_true] at hr ⊢
    have hdrop : r.requestURI.drop (c.group.length + 2) = LARGE_DIR_NAME ++ '/' :: (c.peerId ++ '/' :: rest) := by
      rw [hr, List.append_assoc, List.singleton_append, drop_group]
    have h1 : Go.hasPrefix r.requestURI ('/' :: (c.group ++ ['/'])) = true :=
      Go.hasPrefix_iff.mpr ⟨LARGE_DIR_NAME ++ '/' :: (c.peerId ++ '/' :: rest), by rw [hr]; simp⟩
    have h2 : Go.hasPrefix r.requestURI ('/' :: (c.group ++ '/' :: (LARGE_DIR_NAME ++ ['/']))) = true :=
      Go.hasPrefix_iff.mpr ⟨c.peerId ++ '/' :: rest, by rw [hr]; simp⟩
    simp only [h1, h2, if_true, hdrop]
    simp
  · simp only [hg, Bool.false_eq_true, if_false, List.nil_append] at hr ⊢
    -- a group named otherwise is no prefix of `/haystack/`
    have h1 : Go.hasPrefix r.requestURI ('/' :: (c.group ++ ['/'])) = false := by
      rw [← Bool.not_eq_true, Go.hasPrefix_iff]
      intro hx
      obtain ⟨t, ht⟩ := hx
      rw [hr, List.cons_append, List.append_assoc] at ht
      have := Go.append_cons_inj hc.group_slash (by decide) (List.cons.inj ht).2
      exact hc.group_ne this.1
    have h2 : Go.hasPrefix r.requestURI ('/' :: (LARGE_DIR_NAME ++ ['/'])) = true :=
      Go.hasPrefix_iff.mpr ⟨c.peerId ++ '/' :: rest, by rw [hr]; simp⟩
    simp only [h1, h2, if_true, Bool.false_eq_true, if_false]
    simp [hr]

theorem notMem_dirNames : ∀ x ∈ [',', '?', '%'],
    x.isDigit = false ∧ x ≠ '/' ∧ x ∉ LARGE_DIR_NAME ∧ x ∉ STORE_DIR_NAME :=
  List.forall_iff_forall_mem.mp (by decide)

/-- Whatever follows the first comma, the request names the pack file. -/
theorem getFilePathFromRequest_small (hc : SmallNames c) {r : Request} {n : Nat} {rest : Str}
    (hr : r.requestURI = '/' :: ((if c.supportGroupManage then c.group ++ ['/'] else []) ++
      (LARGE_DIR_NAME ++ '/' :: (c.peerId ++ '/' :: (Go.itoa n ++ ',' :: rest))))) :
    (getFilePathFromRequest c r).1 = packPath c (Go.itoa n) := by
  have hfree : ∀ x ∈ [',', '?', '%'], x ∉ LARGE_DIR_NAME ++ '/' :: (c.peerId ++ '/' :: Go.itoa (n : Int)) := by
    intro x hx hm
    obtain ⟨hd, hs, hl, _⟩ := notMem_dirNames x hx
    simp only [List.mem_append, List.mem_cons, hs, hl, false_or] at hm
    rcases hm with hm | hm
    · exact (hc.plain x hx).1 hm
    · exact Go.notMem_itoa hd n hm
  rw [getFilePathFromRequest_large c hc hr]
  have e : LARGE_DIR_NAME ++ '/' :: (c.peerId ++ '/' :: (Go.itoa (n : Int) ++ ',' :: rest)) =
      (LARGE_DIR_NAME ++ '/' :: (c.peerId ++ '/' :: Go.itoa (n : Int))) ++ ',' :: rest := by simp
  have hq : Go.splitHead '?' (LARGE_DIR_NAME ++ '/' :: (c.peerId ++ '/' :: (Go.itoa (n : Int) ++ ',' :: rest))) =
      (LARGE_DIR_NAME ++ '/' :: (c.peerId ++ '/' :: Go.itoa (n : Int))) ++ ',' :: Go.splitHead '?' rest := by
    rw [e, Go.splitHead_append_left (hfree '?' (by decide)), Go.splitHead_cons (by decide)]
  have hpack : c.dockerDir ++ (STORE_DIR_NAME ++ '/' :: (LARGE_DIR_NAME ++ '/' :: (c.peerId ++ '/' :: Go.itoa (n : Int)))) =
      packPath c (Go.itoa n) := by
    rw [packPath_eq]; simp [largePath]
  have hplain : ∀ x ∈ [',', '?', '%'], x ∉ packPath c (Go.itoa n) := by
    intro x hx hm
    obtain ⟨_, hs, _, hf⟩ := notMem_dirNames x hx
    rw [← hpack, List.mem_append, List.mem_append, List.mem_cons] at hm
    rcases hm with hm | hm | hm | hm
    · exact (hc.plain x hx).2.2 hm
    · exact hf hm
    · exact hs hm
    · exact hfree x hx hm
  have hfull : c.dockerDir ++ (STORE_DIR_NAME ++ '/' :: ((LARGE_DIR_NAME ++ '/' :: (c.peerId ++ '/' :: Go.itoa (n : Int))) ++
      ',' :: Go.splitHead '?' rest)) = packPath c (Go.itoa n) ++ ',' :: Go.splitHead '?' rest := by
    rw [← hpack]; simp only [List.append_assoc, List.cons_append]
  simp only [hq, hfull, Go.splitHead_append (hplain ',' (by decide)), Go.pathUnescape_of_notMem (hplain '%' (by decide)),
    Option.getD_some]

/-- The name of a merged file is read back, whatever extension and query follow it. -/
theorem parseSmallFile_small {a rest : Str} {n off size : Nat} (hoff : off < 2 ^ 63) (hsize : size ≤ 1024 * 1024)
    (hrest : '/' ∉ rest) :
    parseSmallFile (a ++ '/' :: smallName (Go.itoa n) off size rest) = some (Go.itoa n, (off : Int), (size : Int)) := by
  have hd : ∀ k : Nat, '/' ∉ Go.itoa (k : Int) := fun k => Go.notMem_itoa (by decide) k
  have hcomma : ∀ k : Nat, ',' ∉ Go.itoa (k : Int) := fun k => Go.notMem_itoa (by decide) k
  have hname : '/' ∉ smallName (Go.itoa n) off size rest := by
    have h : '/' ≠ ',' := by decide
    simp only [smallName, List.mem_append, List.mem_cons, hd, hrest, h, or_self, not_false_eq_true]
  have hlen : ¬ (a ++ '/' :: smallName (Go.itoa n) off size rest).length < 3 := by
    simp only [smallName, List.length_append, List.length_cons]
    omega
  unfold parseSmallFile
  rw [if_neg hlen, Go.afterLast_append hname, smallName, List.splitOn_append_cons_self_of_not_mem (hcomma n),
    List.splitOn_append_cons_self_of_not_mem (hcomma off), List.splitOn_append_cons_self_of_not_mem (hcomma size)]
  have hs : (size : Int) < 2 ^ 63 := by omega
  simp only [Go.parseInt_itoa hoff, Go.parseInt_itoa (n := size) (by omega)]
  rw [if_neg]
  simp only [CONST_SMALL_FILE_SIZE, not_or]
  omega

/-! ## Addresses of files on their own -/

theorem buildFileResult_url (dom : Str) (fi : FileInfo) (host : Option Str) :
    let res := (buildFileResult c dom fi host).1
    res.url = res.domain ++ res.path ++ (if c.defaultDownload then downloadQuery fi else []) := by
  unfold buildFileResult
  dsimp only
  generalize "://".toList = sep
  generalize (if c.enableHttps then "https".toList else "http".toList) = protocol
  generalize hd : (if Go.hasPrefix dom "http".toList then dom else _) = d
  by_cases h : d = []
  · subst h
    simp only [ne_eq, not_true_eq_false, if_false]
    split <;> simp
  · simp only [ne_eq, h, not_false_eq_true, if_true]
    split <;> simp

theorem resultPath_own {fi : FileInfo} {q : Str} (hp : fi.path = STORE_DIR_NAME ++ '/' :: q) :
    resultPath c fi = (if c.supportGroupManage then c.group ++ ['/'] else []) ++ (q ++ '/' :: fi.outname) := by
  have : fi.path = (STORE_DIR_NAME ++ ['/']) ++ q := by rw [hp]; simp
  unfold resultPath
  rw [this, Go.replaceFirst_append]
  split <;> simp

/-- A request below `/group/` names what follows the group, any other what follows `/`;
    below the pack directory the whole name is given too. -/
theorem getFilePathFromRequest_plain {r : Request} {p : Str} (hd : '%' ∉ c.dockerDir) (hp : '%' ∉ p)
    (hcut : Go.splitHead '?' (if Go.hasPrefix r.requestURI ('/' :: (c.group ++ ['/'])) then
      r.requestURI.drop (c.group.length + 2) else r.requestURI.drop 1) = p) :
    let largePrefix :=
      if c.supportGroupManage then '/' :: (c.group ++ '/' :: (LARGE_DIR_NAME ++ ['/'])) else '/' :: (LARGE_DIR_NAME ++ ['/'])
    (Go.hasPrefix r.requestURI largePrefix = true → (getFilePathFromRequest c r).2 ≠ []) ∧
    (Go.hasPrefix r.requestURI largePrefix = false →
      getFilePathFromRequest c r = (c.dockerDir ++ STORE_DIR_NAME ++ '/' :: p, [])) := by
  have hfree : '%' ∉ c.dockerDir ++ STORE_DIR_NAME ++ '/' :: p := by
    have h1 : '%' ∉ STORE_DIR_NAME := by decide
    have h2 : '%' ≠ '/' := by decide
    simp only [List.mem_append, List.mem_cons, hd, hp, h1, h2, or_self, not_false_eq_true]
  simp only [getFilePathFromRequest, hcut, Go.pathUnescape_of_notMem hfree]
  constructor
  · intro h
    rw [if_pos h]
    simp
  · intro h
    rw [if_neg (by rw [h]; decide)]
    rfl

theorem splitHead_query {p t : Str} (hp : '?' ∉ p) {fi : FileInfo} (ht : t = [] ∨ t = downloadQuery fi) :
    Go.splitHead '?' (p ++ t) = p := by
  rcases ht with rfl | rfl
  · have := Go.splitHead_append_left hp []
    rw [this]
    exact List.append_nil p
  · have hq : downloadQuery fi = '?' :: ("name=".toList ++ Go.pathEscape fi.name ++ "&download=1".toList) := rfl
    rw [hq, Go.splitHead_append hp]

/-- With groups in the addresses the group is taken off and only the pack directory is
    mistaken. -/
theorem resolves_group_iff {r : Request} {q name t : Str} {fi : FileInfo} (hs : c.supportGroupManage = true)
    (hplain : ∀ x ∈ ['%', '?'], x ∉ q ++ '/' :: name) (hd : '%' ∉ c.dockerDir) (ht : t = [] ∨ t = downloadQuery fi)
    (hr : r.requestURI = '/' :: (c.group ++ '/' :: (q ++ '/' :: name ++ t))) :
    getFilePathFromRequest c r = (c.dockerDir ++ STORE_DIR_NAME ++ '/' :: (q ++ '/' :: name), []) ↔
      Go.splitHead '/' q ≠ LARGE_DIR_NAME := by
  have hgroup : Go.hasPrefix r.requestURI ('/' :: (c.group ++ ['/'])) = true := by
    rw [Go.hasPrefix_iff, hr]
    exact ⟨q ++ '/' :: name ++ t, by simp⟩
  have hdrop : r.requestURI.drop (c.group.length + 2) = q ++ '/' :: name ++ t := by rw [hr, drop_group]
  have hlarge : Go.hasPrefix r.requestURI ('/' :: (c.group ++ '/' :: (LARGE_DIR_NAME ++ ['/']))) = true ↔
      Go.splitHead '/' q = LARGE_DIR_NAME := by
    rw [Go.hasPrefix_iff, hr, List.cons_prefix_cons, List.prefix_append_right_inj, List.cons_prefix_cons,
      List.append_assoc, List.cons_append, Go.append_isPrefix_iff (by decide)]
    simp
  have hcut := getFilePathFromRequest_plain c hd (hplain '%' (by decide))
    (by rw [if_pos hgroup, hdrop]; exact splitHead_query (hplain '?' (by decide)) ht)
  simp only [hs, if_true] at hcut
  rw [ne_eq, ← hlarge]
  constructor
  · intro h hx
    exact hcut.1 hx (by rw [h])
  · intro hx
    exact hcut.2 (Bool.not_eq_true _ ▸ hx)

/-- A request without a group that begins with a folder of the group's name: what follows
    the folder is a shorter path. -/
theorem group_folder_lost {r : Request} {q name t : Str} {fi : FileInfo} (hs : c.supportGroupManage = false)
    (hplain : ∀ x ∈ ['%', '?'], x ∉ q ++ '/' :: name) (hd : '%' ∉ c.dockerDir) (ht : t = [] ∨ t = downloadQuery fi)
    (hr : r.requestURI = '/' :: (q ++ '/' :: name ++ t)) (hq : Go.splitHead '/' q = c.group) :
    getFilePathFromRequest c r ≠ (c.dockerDir ++ STORE_DIR_NAME ++ '/' :: (q ++ '/' :: name), []) := by
  obtain ⟨u, hu⟩ := Go.exists_splitHead_append '/' q (name ++ t)
  rw [hq] at hu
  have hgroup : Go.hasPrefix r.requestURI ('/' :: (c.group ++ ['/'])) = true := by
    rw [Go.hasPrefix_iff, hr, List.append_assoc, List.cons_append, hu]
    exact ⟨u, by simp⟩
  have hdrop : r.requestURI.drop (c.group.length + 2) = u := by
    rw [hr, List.append_assoc, List.cons_append, hu, drop_group]
  have hmem : '?' ∉ c.group ++ ['/'] := by
    rw [← hq]
    intro h
    rcases List.mem_append.mp h with h | h
    · exact hplain '?' (by decide) (List.mem_append_left _ (Go.mem_of_mem_splitHead h))
    · exact absurd h (by decide)
  have hwhole : q ++ '/' :: name = c.group ++ '/' :: Go.splitHead '?' u := by
    have h1 := splitHead_query (hplain '?' (by decide)) ht
    have h2 := Go.splitHead_append_left hmem u
    rw [List.append_assoc, List.cons_append, hu] at h1
    rw [List.append_assoc, List.singleton_append] at h2
    rw [← h1, h2]
    simp
  have hescape : '%' ∉ Go.splitHead '?' u := by
    intro h
    exact hplain '%' (by decide) (by rw [hwhole]; exact List.mem_append_right _ (List.mem_cons_of_mem _ h))
  have hcut := getFilePathFromRequest_plain c hd hescape (by rw [if_pos hgroup, hdrop])
  simp only [hs, Bool.false_eq_true, if_false] at hcut
  intro h
  rcases Bool.eq_false_or_eq_true (Go.hasPrefix r.requestURI ('/' :: (LARGE_DIR_NAME ++ ['/']))) with hx | hx
  · exact absurd (by rw [h]) (hcut.1 hx)
  · rw [hcut.2 hx] at h
    have hlen := congrArg (fun x : Str × Str => x.1.length) h
    simp only [hwhole, List.length_append, List.length_cons] at hlen
    omega

/-- Without, a folder of the group's name is taken off as if it were the group. -/
theorem resolves_plain_iff {r : Request} {q name t : Str} {fi : FileInfo} (hs : c.supportGroupManage = false)
    (hplain : ∀ x ∈ ['%', '?'], x ∉ q ++ '/' :: name) (hg : '/' ∉ c.group) (hd : '%' ∉ c.dockerDir)
    (ht : t = [] ∨ t = downloadQuery fi) (hr : r.requestURI = '/' :: (q ++ '/' :: name ++ t)) :
    getFilePathFromRequest c r = (c.dockerDir ++ STORE_DIR_NAME ++ '/' :: (q ++ '/' :: name), []) ↔
      Go.splitHead '/' q ≠ LARGE_DIR_NAME ∧ Go.splitHead '/' q ≠ c.group := by
  by_cases hgroup : Go.splitHead '/' q = c.group
  · exact ⟨fun h => absurd h (group_folder_lost c hs hplain hd ht hr hgroup), fun h => absurd hgroup h.2⟩
  have hpre : ∀ g : Str, '/' ∉ g →
      (Go.hasPrefix r.requestURI ('/' :: (g ++ ['/'])) = true ↔ Go.splitHead '/' q = g) := by
    intro g hg
    rw [Go.hasPrefix_iff, hr, List.cons_prefix_cons, List.append_assoc, List.cons_append, Go.append_isPrefix_iff hg]
    simp
  have hno : ¬ Go.hasPrefix r.requestURI ('/' :: (c.group ++ ['/'])) = true := fun h => hgroup ((hpre _ hg).mp h)
  have hcut := getFilePathFromRequest_plain c hd (hplain '%' (by decide))
    (by rw [if_neg hno, hr]; exact splitHead_query (hplain '?' (by decide)) ht)
  simp only [hs, Bool.false_eq_true, if_false] at hcut
  rw [ne_eq, ← hpre LARGE_DIR_NAME (by decide)]
  constructor
  · intro h
    exact ⟨fun hx => hcut.1 hx (by rw [h]), hgroup⟩
  · intro h
    exact hcut.2 (Bool.not_eq_true _ ▸ h.1)

/-- A file's published address is read back as its path exactly when the address does not
    begin with the pack directory nor, in addresses without a group, with the group. -/
theorem published_resolves_iff {fi : FileInfo} {q : Str} (hpath : fi.path = STORE_DIR_NAME ++ '/' :: q)
    (hplain : ∀ x ∈ ['%', '?'], x ∉ q ∧ x ∉ fi.outname) (hg : '/' ∉ c.group)
    (hd : '%' ∉ c.dockerDir) (dom : Str) (host : Option Str) :
    let res := (buildFileResult c dom fi host).1
    res.url = res.domain ++ res.path ++ (if c.defaultDownload then downloadQuery fi else []) ∧
    ∀ r : Request, r.requestURI = res.path ∨ r.requestURI = res.path ++ downloadQuery fi →
      (getFilePathFromRequest c r = (getFilePathByInfo c fi, []) ↔
        Go.splitHead '/' q ≠ LARGE_DIR_NAME ∧ (c.supportGroupManage = true ∨ Go.splitHead '/' q ≠ c.group)) := by
  refine ⟨buildFileResult_url c dom fi host, ?_⟩
  intro r hr
  have hfree : ∀ x ∈ ['%', '?'], x ∉ q ++ '/' :: fi.outname := by
    intro x hx h
    have hs : x ≠ '/' := by
      intro heq
      subst heq
      exact absurd hx (by decide)
    rcases List.mem_append.mp h with h | h
    · exact (hplain x hx).1 h
    · exact (hplain x hx).2 ((List.mem_cons.mp h).resolve_left hs)
  have hfull : getFilePathByInfo c fi = c.dockerDir ++ STORE_DIR_NAME ++ '/' :: (q ++ '/' :: fi.outname) := by
    simp [getFilePathByInfo, FileInfo.fullpath, hpath]
  have huri : ∃ t, (t = [] ∨ t = downloadQuery fi) ∧ r.requestURI = '/' :: (resultPath c fi ++ t) := by
    rw [buildFileResult_path] at hr
    rcases hr with hr | hr
    · exact ⟨[], Or.inl rfl, by rw [hr, List.append_nil]⟩
    · exact ⟨_, Or.inr rfl, hr⟩
  obtain ⟨t, ht, hr⟩ := huri
  rw [resultPath_own c hpath] at hr
  rw [hfull]
  cases hs : c.supportGroupManage with
  | true =>
    rw [resolves_group_iff c hs hfree hd ht (by rw [hr, hs]; simp)]
    simp
  | false =>
    rw [resolves_plain_iff c hs hfree hg hd ht (by rw [hr, hs]; simp)]
    simp

/-- `files/group1/a.txt` on a node of `group1` whose addresses carry no group: its address
    is read as `files/a.txt`. -/
theorem a_folder_named_as_the_group_is_lost :
    let c : Config := { group := "group1".toList }
    let fi : FileInfo := { name := "a.txt".toList, path := "files/group1".toList, offSet := -1 }
    (buildFileResult c "http".toList fi none).1.path = "/group1/a.txt".toList ∧
      getFilePathFromRequest c { requestURI := "/group1/a.txt".toList } = ("files/a.txt".toList, []) ∧
      getFilePathByInfo c fi = "files/group1/a.txt".toList := by
  decide +kernel

theorem a_folder_named_otherwise_is_read_back :
    getFilePathFromRequest { group := "group1".toList } { requestURI := "/default/a.txt".toList } =
      (getFilePathByInfo { group := "group1".toList } { name := "a.txt".toList, path := "files/default".toList, offSet := -1 },
        []) :=
  have hpath : ({ name := "a.txt".toList, path := "files/default".toList, offSet := -1 } : FileInfo).path =
    STORE_DIR_NAME ++ '/' :: "default".toList := rfl
  ((published_resolves_iff { group := "group1".toList } hpath (List.forall_iff_forall_mem.mp (by decide)) (by decide)
      (by decide) "http".toList none).2
      { requestURI := "/default/a.txt".toList } (Or.inl (by decide +kernel))).mpr ⟨by decide, Or.inr (by decide)⟩

/-! ## Earlier results -/

/-- The download domain after a run of `BuildFileResult` calls. -/
def domainAfter (dom : Str) (calls : List (FileInfo × Option Str)) : Str :=
  calls.foldl (fun dom x => (buildFileResult c dom x.1 x.2).2) dom

def resultHost (host : Option Str) : Str := host.getD (Go.replaceAll "http://".toList [] c.host)

def firstHost (calls : List (FileInfo × Option Str)) (host : Option Str) : Str :=
  resultHost c ((calls.map (·.2) ++ [host]).headD none)

theorem buildFileResult_domain (dom : Str) (fi : FileInfo) (host : Option Str) :
    (buildFileResult c dom fi host).2 =
      if Go.hasPrefix dom "http".toList then dom
      else (if c.enableHttps then "https".toList else "http".toList) ++
        ("://".toList ++ if dom = [] then resultHost c host else dom) := by
  unfold buildFileResult resultHost
  dsimp only
  split
  · rfl
  · split <;> rw [List.append_assoc]

theorem buildFileResult_domain_prefix (dom : Str) (fi : FileInfo) (host : Option Str) :
    Go.hasPrefix (buildFileResult c dom fi host).2 "http".toList = true := by
  rw [buildFileResult_domain]
  by_cases h : Go.hasPrefix dom "http".toList = true
  · rw [if_pos h]
    exact h
  · rw [if_neg h, Go.hasPrefix_iff]
    split
    · exact ⟨_, rfl⟩
    · exact ⟨_, rfl⟩

/-- The domain is settled by the first call. -/
theorem domainAfter_settled {dom : Str} (h : Go.hasPrefix dom "http".toList = true)
    (calls : List (FileInfo × Option Str)) : domainAfter c dom calls = dom := by
  induction calls with
  | nil => rfl
  | cons x calls ih =>
    have hx : (buildFileResult c dom x.1 x.2).2 = dom := by rw [buildFileResult_domain, if_pos h]
    show domainAfter c (buildFileResult c dom x.1 x.2).2 calls = dom
    rw [hx]
    exact ih

/-- What a call leaves in the configuration is what the first call of all left there. -/
theorem domainAfter_first (dom : Str) (calls : List (FileInfo × Option Str)) (fi : FileInfo) (host : Option Str) :
    (buildFileResult c (domainAfter c dom calls) fi host).2 =
      if Go.hasPrefix dom "http".toList then dom
      else (if c.enableHttps then "https".toList else "http".toList) ++
        ("://".toList ++ if dom = [] then firstHost c calls host else dom) := by
  cases calls with
  | nil => exact buildFileResult_domain c dom fi host
  | cons x calls =>
    have hp := buildFileResult_domain_prefix c dom x.1 x.2
    have hrun : domainAfter c dom (x :: calls) = (buildFileResult c dom x.1 x.2).2 := domainAfter_settled c hp calls
    rw [hrun, buildFileResult_domain, if_pos hp]
    exact buildFileResult_domain c dom x.1 x.2

theorem buildFileResult_result {dom dom' : Str} (fi : FileInfo) (host : Option Str) :
    (buildFileResult c dom fi host).1 = (buildFileResult c dom' fi host).1 ↔
      (buildFileResult c dom fi host).2 = (buildFileResult c dom' fi host).2 := by
  have hdomain : ∀ dom, (buildFileResult c dom fi host).1.domain = (buildFileResult c dom fi host).2 := by
    intro dom
    have hne : (buildFileResult c dom fi host).2 ≠ [] := by
      intro e
      have hp := buildFileResult_domain_prefix c dom fi host
      rw [e] at hp
      exact absurd hp (by decide)
    exact if_pos hne
  constructor
  · intro h
    rw [← hdomain dom, ← hdomain dom', h]
  · intro h
    have hu := buildFileResult_url c dom fi host
    have hu' := buildFileResult_url c dom' fi host
    dsimp only at hu hu'
    rw [hdomain] at hu hu'
    have hurl : (buildFileResult c dom fi host).1.url = (buildFileResult c dom' fi host).1.url := by
      rw [hu, hu', h]
      rfl
    have hd : (buildFileResult c dom fi host).1.domain = (buildFileResult c dom' fi host).1.domain := by
      rw [hdomain, hdomain, h]
    show FileResult.mk _ _ _ _ _ _ _ _ _ = FileResult.mk _ _ _ _ _ _ _ _ _
    rw [FileResult.mk.injEq]
    exact ⟨hurl, rfl, rfl, hd, rfl, rfl, rfl, rfl, rfl⟩

/-- The same record and request get the same result after two runs of earlier calls exactly
    if a download domain is configured or both runs begin with the same host. -/
theorem earlier_results_matter_iff (dom : Str) (calls calls' : List (FileInfo × Option Str)) (fi : FileInfo)
    (host : Option Str) :
    (buildFileResult c (domainAfter c dom calls) fi host).1 = (buildFileResult c (domainAfter c dom calls') fi host).1 ↔
      dom ≠ [] ∨ firstHost c calls host = firstHost c calls' host := by
  rw [buildFileResult_result, domainAfter_first, domainAfter_first]
  by_cases hdom : dom = []
  · subst hdom
    have hp : ¬ Go.hasPrefix ([] : Str) "http".toList = true := by decide
    simp only [if_neg hp, if_true, List.append_cancel_left_eq, ne_eq, not_true_eq_false, false_or]
  · simp only [hdom, if_false, ne_eq, not_false_eq_true, true_or]

/-- The first client's `Host` is in every later address. -/
theorem a_host_header_reaches_the_next_client :
    let fi : FileInfo := { name := "a.txt".toList, path := "files/default".toList, offSet := -1 }
    (buildFileResult {} (domainAfter {} [] []) fi (some "node:8080".toList)).1.url =
        "http://node:8080/default/a.txt".toList ∧
      (buildFileResult {} (domainAfter {} [] [(fi, some "evil".toList)]) fi (some "node:8080".toList)).1.url =
        "http://evil/default/a.txt".toList := by
  decide +kernel

end GoFastdfs
