/-
  GoFastdfs.Reveal — what a download gives away of a pack (`Download`,
  `DownloadNormalFileByURI` and `DownloadSmallFileByURI` of `http_download.go`).

  A request whose undecoded address begins with the pack directory is answered with a piece
  of a pack: offset and length are the client's, and of the piece only its first byte is
  looked at, which is to be the marker `1`. Any other request is answered with the whole
  file by the file server, which decodes the address.

  Proved: over every run of `SaveSmallFile` calls, bytes sent from a pack are those of one
  merged file, from its first to its last, exactly if the address begins with the pack
  directory and has the offset and the length recorded for that file
  (`download_reveals_iff`). So a pack that is sent by the file server is never a merged file
  (`a_served_pack_is_no_file`).
-/

import GoFastdfs.Confinement
import GoFastdfs.Auth

namespace GoFastdfs

open Go (Str)

variable (E : Env) (c : Config)

/-! ## What is sent -/

/-- `r.URL`, as it was parsed. -/
structure Url where
  path : Str
  rawPath : Str := []

/-- What `http.StripPrefix` leaves of a path, if the prefix is one. -/
def stripPrefix (pre : Str) (u : Url) : Option Str :=
  if Go.hasPrefix u.path pre = true ∧ (u.rawPath = [] ∨ Go.hasPrefix u.rawPath pre = true) then
    some (u.path.drop pre.length)
  else none

/-- `http.Dir.Open`: the path on disk. -/
def dirPath (name : Str) : Str := Go.pathClean (c.STORE_DIR ++ '/' :: Go.pathClean ('/' :: name))

/-- `http.FileServer` on the store: the file sent and its bytes; redirections and listings
    are none. -/
def serveFile (d : Disk) (p : Str) : Option (Str × Str) :=
  let upath := if p.head? = some '/' then p else '/' :: p
  let name := Go.pathClean upath
  let slash := upath.getLast? = some '/'
  if "/index.html".toList <:+ upath then none
  else
    match d.stat (dirPath c name) with
    | none => none
    | some .dir =>
      let index := dirPath c (name ++ "/index.html".toList)
      if slash then (d.read index).map (index, ·) else none
    | some (.file data _) => if slash then none else some (dirPath c name, data)

def staticHandler (d : Disk) (u : Url) : Option (Str × Str) :=
  (stripPrefix (if c.supportGroupManage then '/' :: (c.group ++ ['/']) else ['/']) u).bind (serveFile c d)

structure Piece where
  path : Str
  start : Nat
  bytes : Str
  deriving DecidableEq, Repr

def asksSize (r : Request) : Bool := (imageSize c r).1 ≠ 0 ∨ (imageSize c r).2 ≠ 0

/-- `DownloadNormalFileByURI`. In another size a picture is encoded anew, and anything else
    is closed before it is copied. -/
def normalPiece (d : Disk) (r : Request) (u : Url) : Option Piece :=
  if asksSize c r then none else (staticHandler c d u).map fun f => ⟨f.1, 0, f.2⟩

variable {Img : Type} (I : Images Img)

/-- `ResizeImageByBytes` sends the bytes as they are. -/
def keepsBytes (bytes : Str) : Bool :=
  match I.decode bytes with
  | none => false
  | some (_, imgType) => ["jpg".toList, "jpeg".toList, "png".toList].contains imgType = false

def smallPiece (d : Disk) (r : Request) : Option Piece :=
  match parseSmallFile r.requestURI, getSmallFileByURI c d r with
  | some (_, offset, _), .data ('1' :: bytes) =>
    if asksSize c r = true ∧ keepsBytes I bytes = false then none
    else some ⟨(getFilePathFromRequest c r).1, offset.toNat + 1, bytes⟩
  | _, _ => none

/-- `Download`: the bytes of a file of this node that are sent; `isPeer` and `auth` are the
    answers of `IsPeer` and `CheckAuth`. -/
def Server.downloadPiece (s : Server) (r : Request) (u : Url) (showDir isPeer auth : Bool) (now : Int) : Option Piece :=
  if Go.contains r.requestURI "..".toList then none
  else if r.requestURI = ['/'] ∨ r.requestURI = [] ∨ r.requestURI = '/' :: c.group ∨
      r.requestURI = '/' :: (c.group ++ ['/']) then none
  else if checkDownloadAuth E c s r isPeer auth now ≠ .allow then none
  else if (getFilePathFromRequest c r).2 = [] then
    match s.disk.stat (getFilePathFromRequest c r).1 with
    | none => none
    | some n => if showDir = false ∧ n = .dir then none else normalPiece c s.disk r u
  else smallPiece c I s.disk r

/-! ## The packs -/

/-- The source of a call is the pack that the file is in. -/
def TakenAway (d : Disk) (source : FileInfo) (e : FileInfo × Str) : Prop :=
  ∃ n off l, Merged c e.1 e.2 n off ∧ (withLargeDir c d).locate (getFilePathByInfo c source) = some l ∧
    (withLargeDir c d).locate (packPath c (Go.itoa n)) = some l

/-- The files merged after a call: those whose pack was not taken away, and the new one. -/
def mergedAfter (d : Disk) (merged : Set (FileInfo × Str)) (fi : FileInfo) (w : Draw) (x : Str) : Set (FileInfo × Str) :=
  { e | e ∈ merged ∧ ((saveSmallFile c d fi w).1 = none ∨ ¬ TakenAway c d fi e) ∨
        (saveSmallFile c d fi w).1 = some e.1 ∧ e.2 = x }

/-- A disk with the files merged in its packs, each with its bytes; a call on a file that is
    there, or anything else that leaves the packs alone. -/
inductive MergeStep : Disk × Set (FileInfo × Str) → Disk × Set (FileInfo × Str) → Prop
  | save (d : Disk) (merged : Set (FileInfo × Str)) (fi : FileInfo) (w : Draw) (x : Str) :
      d.read (getFilePathByInfo c fi) = some x → fi.size = x.length →
      MergeStep (d, merged) ((saveSmallFile c d fi w).2, mergedAfter c d merged fi w x)
  | other (d d' : Disk) (merged : Set (FileInfo × Str)) :
      (∀ n : Nat, 100 ≤ n ∧ n < 300 → d'.read (packPath c (Go.itoa n)) = d.read (packPath c (Go.itoa n))) →
      MergeStep (d, merged) (d', merged)

/-- The bytes are those of pack `n`, and there are some. -/
structure FromPack (d : Disk) (p : Piece) (n : Nat) : Prop where
  pack : 100 ≤ n ∧ n < 300
  bytes : p.bytes ≠ []
  place : ∃ l, d.locate p.path = some l ∧ d.locate (packPath c (Go.itoa n)) = some l

/-- The piece is one file of the pack, from its first byte to its last. -/
def IsMergedFile (merged : Set (FileInfo × Str)) (p : Piece) (n : Nat) : Prop :=
  ∃ e ∈ merged, ∃ off, Merged c e.1 e.2 n off ∧ p.start = off + 1 ∧ p.bytes = e.2

/-- The address begins with the pack directory, and has the offset and the length of a file
    of the pack. -/
def AsksMergedFile (merged : Set (FileInfo × Str)) (r : Request) (n : Nat) : Prop :=
  asksPack c r = true ∧ ∃ e ∈ merged, ∃ off, Merged c e.1 e.2 n off ∧
    ∃ name, parseSmallFile r.requestURI = some (name, (off : Int), (e.2.length + 1 : Int))

section
variable {E c I}

/-! ## One request -/

theorem smallPath_iff (r : Request) : (getFilePathFromRequest c r).2 = [] ↔ asksPack c r = false := by
  unfold getFilePathFromRequest asksPack
  dsimp only
  by_cases h : Go.hasPrefix r.requestURI (if c.supportGroupManage then '/' :: (c.group ++ '/' :: (LARGE_DIR_NAME ++ ['/']))
      else '/' :: (LARGE_DIR_NAME ++ ['/'])) = true
  · rw [if_pos h, h]
    simp [STORE_DIR_NAME]
  · rw [if_neg h, Bool.not_eq_true] at *
    exact iff_of_true rfl h

/-- What the file server sends begins at the file's first byte, what is sent of a pack at
    the byte behind the marker. -/
theorem downloadPiece_cases {s : Server} {r : Request} {u : Url} {showDir isPeer auth : Bool} {now : Int} {p : Piece}
    (h : s.downloadPiece E c I r u showDir isPeer auth now = some p) :
    (asksPack c r = false ∧ normalPiece c s.disk r u = some p) ∨ (asksPack c r = true ∧ smallPiece c I s.disk r = some p) := by
  unfold Server.downloadPiece at h
  split_ifs at h with _ _ _ hsmall
  · refine Or.inl ⟨(smallPath_iff r).mp hsmall, ?_⟩
    split at h
    · cases h
    · split_ifs at h
      exact h
  · refine Or.inr ⟨?_, h⟩
    rw [smallPath_iff] at hsmall
    simpa using hsmall

theorem normalPiece_start {d : Disk} {r : Request} {u : Url} {p : Piece} (h : normalPiece c d r u = some p) : p.start = 0 := by
  unfold normalPiece at h
  split_ifs at h
  obtain ⟨f, _, rfl⟩ := Option.map_eq_some_iff.mp h
  rfl

/-- The bytes read for the address of a merged file are the piece of the file at its path
    that the address asks for. -/
theorem getSmallFileByURI_data {d : Disk} {r : Request} {name b : Str} {x : Char} {offset length : Int}
    (hparse : parseSmallFile r.requestURI = some (name, offset, length)) (h : getSmallFileByURI c d r = .data (x :: b)) :
    0 ≤ offset ∧ 0 ≤ length ∧ ∃ data, d.read (getFilePathFromRequest c r).1 = some data ∧
      Disk.slice data offset.toNat length.toNat = some (x :: b) := by
  have hoffset : 0 ≤ offset := by
    unfold parseSmallFile at hparse
    split_ifs at hparse
    split at hparse
    · split at hparse
      · split_ifs at hparse with hbad
        cases hparse
        omega
      · cases hparse
    · cases hparse
  simp only [getSmallFileByURI, hparse] at h
  split at h
  · cases h
  rename_i n hstat
  cases n with
  | dir => dsimp only at h; split_ifs at h; cases h
  | file data t =>
    dsimp only at h
    split_ifs at h with _ hneg
    split at h
    · rename_i b' hslice
      cases h
      exact ⟨hoffset, by omega, data, by rw [Disk.read, hstat], hslice⟩
    · cases h

/-- What is sent of a pack: the piece asked for, without its marker. -/
theorem smallPiece_eq_some {d : Disk} {r : Request} {p : Piece} (h : smallPiece c I d r = some p) :
    ∃ name offset length data, parseSmallFile r.requestURI = some (name, offset, length) ∧ 0 ≤ offset ∧ 0 ≤ length ∧
      d.read (getFilePathFromRequest c r).1 = some data ∧
      Disk.slice data offset.toNat length.toNat = some ('1' :: p.bytes) ∧
      p.path = (getFilePathFromRequest c r).1 ∧ p.start = offset.toNat + 1 := by
  unfold smallPiece at h
  split at h
  · rename_i name offset length bytes hparse hread
    split_ifs at h
    cases h
    obtain ⟨h1, h2, data, hdata, hslice⟩ := getSmallFileByURI_data hparse hread
    exact ⟨name, offset, length, data, hparse, h1, h2, hdata, hslice, rfl, rfl⟩
  · cases h

/-- It is the body that `DownloadSmallFileByURI` sends. -/
theorem smallPiece_sent {d : Disk} {r : Request} {p : Piece} (h : smallPiece c I d r = some p) :
    downloadSmallFileByURI c I d r = .sent (isDownload c r) p.bytes := by
  unfold smallPiece at h
  split at h
  · rename_i name offset length bytes hparse hread
    split_ifs at h with hsize
    cases h
    simp only [downloadSmallFileByURI, hread, if_true]
    split_ifs with hasked
    · -- another size is asked for, of bytes that are no picture of a kind that is encoded
      have hkeeps : keepsBytes I bytes = true := by
        by_contra hk
        exact hsize ⟨by simpa [asksSize] using hasked, by simpa using hk⟩
      unfold keepsBytes at hkeeps
      unfold resizeImageByBytes
      cases hdecode : I.decode bytes with
      | none =>
        rw [hdecode] at hkeeps
        cases hkeeps
      | some x =>
        obtain ⟨img, imgType⟩ := x
        rw [hdecode] at hkeeps
        simp only [List.contains_cons, List.contains_nil, Bool.or_false, Bool.or_eq_false_iff, beq_eq_false_iff_ne,
          decide_eq_true_eq] at hkeeps
        obtain ⟨h1, h2, h3⟩ := hkeeps
        dsimp only
        rw [if_neg (not_or.mpr ⟨h1, h2⟩), if_neg h3]
    · rfl
  · cases h

/-! ## Runs of calls -/

theorem mergeStep_stored {a b : Disk × Set (FileInfo × Str)} (hs : MergeStep c a b)
    (h : ∀ e ∈ a.2, Stored c a.1 e.1 e.2) : ∀ e ∈ b.2, Stored c b.1 e.1 e.2 := by
  cases hs with
  | save d merged fi w x hx hsize =>
    intro e hcase
    rcases hcase with ⟨he, hkept⟩ | ⟨hnew, hbytes⟩
    · obtain ⟨n, off, hm, data, hread, hslice⟩ := h e he
      have hgrow : ∃ tail, (saveSmallFile c d fi w).2.read (packPath c (Go.itoa n)) = some (data ++ tail) := by
        apply saveSmallFile_keeps c ?_ hread
        intro fi' hok l hl hl'
        rcases hkept with hnone | hkept
        · rw [hnone] at hok
          cases hok
        · exact hkept ⟨n, off, l, hm, hl, hl'⟩
      obtain ⟨tail, htail⟩ := hgrow
      exact ⟨n, off, hm, data ++ tail, htail, Disk.slice_append hslice tail⟩
    · obtain ⟨hm, hp⟩ := saveSmallFile_stored c hx hsize hnew
      rw [hbytes]
      exact ⟨_, _, hm, hp⟩
  | other d d' merged hsame =>
    intro e he
    obtain ⟨n, off, hm, data, hread, hslice⟩ := h e he
    exact ⟨n, off, hm, data, (hsame n hm.pack).trans hread, hslice⟩

theorem merged_stored {d0 d : Disk} {merged : Set (FileInfo × Str)}
    (hrun : Relation.ReflTransGen (MergeStep c) (d0, ∅) (d, merged)) : ∀ e ∈ merged, Stored c d e.1 e.2 := by
  have h : ∀ {b}, Relation.ReflTransGen (MergeStep c) (d0, ∅) b → ∀ e ∈ b.2, Stored c b.1 e.1 e.2 := by
    intro b hb
    induction hb with
    | refl => exact fun e he => absurd he (Set.notMem_empty e)
    | tail _ hs ih => exact mergeStep_stored hs ih
  exact h hrun

end

/-- A pack that the file server sends is none of the files merged. -/
theorem a_served_pack_is_no_file {s : Server} {merged : Set (FileInfo × Str)} {r : Request} {u : Url}
    {showDir isPeer auth : Bool} {now : Int} {p : Piece} (h : s.downloadPiece E c I r u showDir isPeer auth now = some p)
    (hr : asksPack c r = false) (n : Nat) : ¬ IsMergedFile c merged p n := by
  intro hex
  obtain ⟨e, _, off, _, hstart, _⟩ := hex
  rcases downloadPiece_cases h with ⟨_, hp⟩ | ⟨hr', _⟩
  · rw [normalPiece_start hp] at hstart
    omega
  · rw [hr] at hr'
    cases hr'

/-- Bytes sent from a pack are one merged file exactly if the address has the offset and the
    length recorded for it; at such an address they are what `DownloadSmallFileByURI` sends. -/
theorem download_reveals_iff {d0 : Disk} {s : Server} {merged : Set (FileInfo × Str)}
    (hrun : Relation.ReflTransGen (MergeStep c) (d0, ∅) (s.disk, merged)) {r : Request} {u : Url}
    {showDir isPeer auth : Bool} {now : Int} {p : Piece} (h : s.downloadPiece E c I r u showDir isPeer auth now = some p)
    {n : Nat} (hp : FromPack c s.disk p n) :
    (IsMergedFile c merged p n ↔ AsksMergedFile c merged r n) ∧
      (AsksMergedFile c merged r n → downloadSmallFileByURI c I s.disk r = .sent (isDownload c r) p.bytes) := by
  rcases downloadPiece_cases h with ⟨hr, hnormal⟩ | ⟨hr, hsmall⟩
  · have hno : ¬ AsksMergedFile c merged r n := by
      intro h'
      rw [AsksMergedFile, hr] at h'
      cases h'.1
    exact ⟨iff_of_false (a_served_pack_is_no_file E c I h hr n) hno, fun h' => absurd h' hno⟩
  refine ⟨?_, fun _ => smallPiece_sent hsmall⟩
  obtain ⟨name, offset, length, data, hparse, hoff0, hlen0, hdata, hslice, hpath, hstart⟩ := smallPiece_eq_some hsmall
  constructor
  · intro hex
    obtain ⟨e, he, off, hm, hoff, hbytes⟩ := hex
    have hlen : ('1' :: p.bytes).length = length.toNat := by
      have hn : length.toNat ≠ 0 := by
        intro h0
        rw [h0, Disk.slice, if_pos rfl] at hslice
        cases hslice
      exact ((Disk.slice_eq_some hn).mp hslice).1
    rw [List.length_cons, hbytes] at hlen
    refine ⟨hr, e, he, off, hm, name, ?_⟩
    rw [hparse, show offset = off by omega, show length = e.2.length + 1 by omega]
  · intro hex
    obtain ⟨_, e, he, off, hm, name', hparse'⟩ := hex
    rw [hparse] at hparse'
    obtain ⟨rfl, rfl, rfl⟩ : name = name' ∧ offset = off ∧ length = e.2.length + 1 := by simpa using hparse'
    refine ⟨e, he, off, hm, by simpa using hstart, ?_⟩
    obtain ⟨m, moff, hm', pack, hpack, hin⟩ := merged_stored hrun e he
    obtain ⟨rfl, rfl, _⟩ := hm'.unique c hm
    -- the path and the pack are one file
    obtain ⟨l, hl, hl'⟩ := hp.place
    rw [hpath] at hl
    have hsame : s.disk.read (packPath c (Go.itoa m)) = s.disk.read (getFilePathFromRequest c r).1 := by
      simp only [Disk.read, Disk.stat, hl, hl']
    rw [hpack, hdata] at hsame
    obtain rfl := Option.some.inj hsame
    have hlen : (e.2.length + 1 : Int).toNat = e.2.length + 1 := by omega
    rw [Int.toNat_natCast, hlen, hin] at hslice
    exact (List.cons.inj (Option.some.inj hslice)).2.symm

/-! ## Fixed inputs -/

def twoFiles : Disk :=
  Disk.ofFiles [("files/default/a.txt".toList, "hello".toList), ("files/default/b.txt".toList, "world".toList)]

def onePack : Disk :=
  (saveSmallFile Config.sample (saveSmallFile Config.sample twoFiles (hello "a.txt".toList) .sample).2
    (hello "b.txt".toList) .sample).2

def sentOf (uri path : Str) : Option Piece :=
  Server.downloadPiece Env.plain Config.sample Images.none { disk := onePack } { requestURI := uri } ⟨path, uri⟩ false false
    false 0

/-- Part of a file, the bytes of two files with the marker between them, and the whole
    pack. -/
theorem a_request_reveals_other_bytes :
    sentOf "/haystack/p1/150,0,3,.txt".toList "/haystack/p1/150,0,3,.txt".toList =
        some ⟨"files/haystack/p1/150".toList, 1, "he".toList⟩ ∧
      sentOf "/haystack/p1/150,0,12,.txt".toList "/haystack/p1/150,0,12,.txt".toList =
        some ⟨"files/haystack/p1/150".toList, 1, "hello1world".toList⟩ ∧
      sentOf "/%68aystack/p1/150".toList "/haystack/p1/150".toList =
        some ⟨"files/haystack/p1/150".toList, 0, "1hello1world".toList⟩ ∧
      ∃ merged, Relation.ReflTransGen (MergeStep Config.sample) (twoFiles, ∅) (onePack, merged) ∧
        ∀ e ∈ merged, e.2 = "hello".toList ∨ e.2 = "world".toList := by
  refine ⟨?_, ?_, ?_, _, .tail
    (.single (.save twoFiles ∅ (hello "a.txt".toList) .sample "hello".toList (by decide +kernel) rfl))
    (.save _ _ (hello "b.txt".toList) .sample "world".toList (by decide +kernel) rfl), ?_⟩
  · decide +kernel
  · decide +kernel
  · decide +kernel
  · intro e h
    rcases h with ⟨⟨he, _⟩ | ⟨_, he⟩, _⟩ | ⟨_, he⟩
    · exact absurd he (Set.notMem_empty e)
    · exact Or.inl he
    · exact Or.inr he

/-- The recorded offset and length of `a.txt`. -/
theorem the_recorded_extent_reveals_the_file :
    let d := helloDisk "a.txt".toList
    let fi := hello "a.txt".toList
    let s : Server := { disk := (saveSmallFile Config.sample d fi .sample).2 }
    let p : Piece := ⟨"files/haystack/p1/150".toList, 1, "hello".toList⟩
    s.downloadPiece Env.plain Config.sample Images.none { requestURI := "/haystack/p1/150,0,6,.txt".toList }
        ⟨"/haystack/p1/150,0,6,.txt".toList, []⟩ false false false 0 = some p ∧
      IsMergedFile Config.sample (mergedAfter Config.sample d ∅ fi .sample "hello".toList) p 150 := by
  have hsent : Server.downloadPiece Env.plain Config.sample Images.none
      { disk := (saveSmallFile Config.sample (helloDisk "a.txt".toList) (hello "a.txt".toList) .sample).2 }
      { requestURI := "/haystack/p1/150,0,6,.txt".toList } ⟨"/haystack/p1/150,0,6,.txt".toList, []⟩ false false false 0 =
      some ⟨"files/haystack/p1/150".toList, 1, "hello".toList⟩ := by decide +kernel
  refine ⟨hsent, (download_reveals_iff Env.plain Config.sample Images.none
    (.single (.save _ _ (hello "a.txt".toList) .sample "hello".toList (by decide +kernel) rfl)) hsent
    ⟨by decide, by decide, ["files".toList, "haystack".toList, "p1".toList, "150".toList], by decide +kernel,
      by decide +kernel⟩).1.mpr ?_⟩
  refine ⟨by decide +kernel, (mergedInfo Config.sample (hello "a.txt".toList) 150 0, "hello".toList),
    Or.inr ⟨by decide +kernel, rfl⟩, 0, ⟨?_, by decide, by decide, ⟨".txt".toList, by decide, ?_⟩, rfl, rfl⟩,
    "150".toList, by decide +kernel⟩
  · decide +kernel
  · decide +kernel

end GoFastdfs
