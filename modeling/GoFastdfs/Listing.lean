/-
  GoFastdfs.Listing — what a node tells of its files to a client that does not know them
  (`Search` and `ListDir` of `http_info.go`).

  A search goes through `ldb` in key order, where a record may be under many keys, and
  keeps each record whose name contains the keyword unless one with its digest was kept
  before, until it has a hundred. A listing shows the entries of one folder of the store,
  each with the digest of its path, which is a key of its record. Every dot is taken out of
  the folder's name first; a name that is then that of a symbolic link, from the working
  directory and not from the store, is replaced by the link's target. The folders below the
  store are no links here.

  Proved: a search shows records of the database only, each digest once, and misses a
  record only behind a hundred others (`search_finds`). Whatever a client names, a listing
  shows exactly the entries of a folder in the store, in the order of their names
  (`listing_stays_in_store`), so a folder with a dot in its name is shown to nobody; only a
  link's target can have dots, and so leave the store (`a_linked_listing_leaves_the_store`).
  The digest shown for a file is the key of its record where the folder is spelled with
  single slashes (`listed_digest_leads_to_record`).
-/

import GoFastdfs.Address

namespace GoFastdfs

open Go (Str)

variable (E : Env) (c : Config)

/-! ## Search -/

def searchLoop (kw : Str) : List (Str × Value) → Nat → List FileInfo → List Str → List FileInfo
  | [], _, fileInfos, _ => fileInfos
  | (_, .empty) :: rows, count, fileInfos, md5s => searchLoop kw rows count fileInfos md5s
  | (_, .record fi) :: rows, count, fileInfos, md5s =>
    if Go.contains fi.name kw = true ∧ md5s.contains fi.md5 = false then
      if count + 1 ≥ 100 then fileInfos ++ [fi]
      else searchLoop kw rows (count + 1) (fileInfos ++ [fi]) (md5s ++ [fi.md5])
    else if count ≥ 100 then fileInfos
    else searchLoop kw rows count fileInfos md5s

inductive SearchEnd where
  | notPermitted
  | ok (data : List FileInfo)
  deriving DecidableEq, Repr

def Server.search (s : Server) (r : Request) (isPeer : Bool) : SearchEnd :=
  if isPeer = false then .notPermitted
  else .ok (searchLoop (r.formValue "kw".toList) (s.ldb.scan fun _ => true) 0 [] [])

def matching (kw : Str) (row : Str × Value) : Option (Str × FileInfo) :=
  match row.2 with
  | .record fi => if Go.contains fi.name kw then some (row.1, fi) else none
  | .empty => none

section
variable {E c}

theorem map_filter_md5 (l : List (Str × FileInfo)) (m : Str) :
    (l.filter fun x => x.2.md5 ≠ m).map (·.2) = (l.map (·.2)).filter fun v => v.md5 ≠ m := by
  rw [List.filter_map]
  rfl

/-- The loop keeps the first of each digest, behind those it has, up to a hundred. -/
theorem searchLoop_eq (kw : Str) : ∀ (rows : List (Str × Value)) {fileInfos : List FileInfo}, fileInfos.length < 100 →
    searchLoop kw rows fileInfos.length fileInfos (fileInfos.map (·.md5)) =
      (fileInfos ++ ((Store.firsts (·.2.md5) (rows.filterMap (matching kw))).map (·.2)).filter
        fun v => v.md5 ∉ fileInfos.map (·.md5)).take 100
  | [], fileInfos, hlen => by
    simp [searchLoop, Store.firsts, List.take_of_length_le hlen.le]
  | (k, .empty) :: rows, fileInfos, hlen => by
    have hrest := searchLoop_eq kw rows hlen
    rw [searchLoop, hrest]
    rfl
  | (k, .record fi) :: rows, fileInfos, hlen => by
    have hskip := searchLoop_eq kw rows hlen
    have hkeep := @searchLoop_eq kw rows (fileInfos ++ [fi])
    have hfull : ¬ fileInfos.length ≥ 100 := by omega
    by_cases hname : Go.contains fi.name kw = true
    · have hrows : ((k, Value.record fi) :: rows).filterMap (matching kw) = (k, fi) :: rows.filterMap (matching kw) := by
        simp [matching, hname]
      rw [hrows, Store.firsts, List.map_cons, map_filter_md5]
      generalize ((Store.firsts (·.2.md5) (rows.filterMap (matching kw))).map (·.2)) = found at hskip hkeep ⊢
      by_cases hmem : fi.md5 ∈ fileInfos.map (·.md5)
      · have hfound : (fi :: found.filter fun v => v.md5 ≠ fi.md5).filter (fun v => v.md5 ∉ fileInfos.map (·.md5)) =
            found.filter fun v => v.md5 ∉ fileInfos.map (·.md5) := by
          rw [List.filter_cons_of_neg (by simpa using hmem), List.filter_filter]
          refine List.filter_congr fun v _ => ?_
          have hother : v.md5 ∉ fileInfos.map (·.md5) → v.md5 ≠ fi.md5 := fun hv e => hv (e ▸ hmem)
          by_cases hv : v.md5 ∈ fileInfos.map (·.md5)
          · simp [hv]
          · simp [hv, hother hv]
        rw [searchLoop, if_neg (by simp [hmem]), if_neg hfull, hskip, hfound]
      · have hfound : (fi :: found.filter fun v => v.md5 ≠ fi.md5).filter (fun v => v.md5 ∉ fileInfos.map (·.md5)) =
            fi :: found.filter fun v => v.md5 ∉ (fileInfos ++ [fi]).map (·.md5) := by
          rw [List.filter_cons_of_pos (by simpa using hmem), List.filter_filter]
          congr 1
          refine List.filter_congr fun v _ => ?_
          simp [not_or, Bool.and_comm]
        have hkept : Go.contains fi.name kw = true ∧ (fileInfos.map (·.md5)).contains fi.md5 = false :=
          ⟨hname, by simpa using hmem⟩
        have happend : fileInfos ++ fi :: found.filter (fun v => v.md5 ∉ (fileInfos ++ [fi]).map (·.md5)) =
            (fileInfos ++ [fi]) ++ found.filter fun v => v.md5 ∉ (fileInfos ++ [fi]).map (·.md5) := by simp
        rw [searchLoop, if_pos hkept, hfound, happend]
        by_cases hlast : fileInfos.length + 1 ≥ 100
        · have hlen' : (fileInfos ++ [fi]).length = 100 := by
            rw [List.length_append, List.length_singleton]
            omega
          rw [if_pos hlast, ← hlen', List.take_left]
        · have hlen' : (fileInfos ++ [fi]).length < 100 := by
            rw [List.length_append, List.length_singleton]
            omega
          have hrest := hkeep hlen'
          have hmd5s : (fileInfos ++ [fi]).map (·.md5) = fileInfos.map (·.md5) ++ [fi.md5] := by simp
          rw [List.length_append, List.length_singleton] at hrest
          rw [if_neg hlast, ← hmd5s]
          exact hrest
    · have hrows : ((k, Value.record fi) :: rows).filterMap (matching kw) = rows.filterMap (matching kw) := by
        simp [matching, hname]
      rw [hrows, searchLoop, if_neg (by simp [hname]), if_neg hfull, hskip]

/-- The entries that a search is for, the first of each digest. -/
def Server.hits (s : Server) (kw : Str) : List (Str × FileInfo) :=
  Store.firsts (·.2.md5) ((s.ldb.scan fun _ => true).filterMap (matching kw))

theorem search_eq (s : Server) (r : Request) :
    s.search r true = .ok (((s.hits (r.formValue "kw".toList)).take 100).map (·.2)) := by
  have hloop := @searchLoop_eq (r.formValue "kw".toList) (s.ldb.scan fun _ => true) [] (by decide)
  rw [List.map_nil, List.length_nil, List.nil_append] at hloop
  rw [Server.search, if_neg (by decide), hloop, List.map_take, Server.hits]
  congr 2
  exact List.filter_eq_self.mpr fun v _ => by simp

theorem matching_eq_some {kw : Str} {row : Str × Value} {x : Str × FileInfo} :
    matching kw row = some x ↔ row = (x.1, .record x.2) ∧ Go.contains x.2.name kw = true := by
  obtain ⟨k, v⟩ := row
  obtain ⟨k', w⟩ := x
  cases v with
  | empty => simp [matching]
  | record fi =>
    by_cases hname : Go.contains fi.name kw = true
    · simp only [matching, hname, if_true, Option.some.injEq, Prod.mk.injEq, Value.record.injEq]
      constructor
      · intro hp
        obtain ⟨rfl, rfl⟩ := hp
        exact ⟨⟨rfl, rfl⟩, hname⟩
      · exact fun h => h.1
    · simp only [matching, hname, Bool.false_eq_true, if_false, reduceCtorEq, Prod.mk.injEq, Value.record.injEq, false_iff]
      intro hp
      obtain ⟨⟨-, rfl⟩, h⟩ := hp
      exact hname h

theorem mem_matching {s : Server} {kw : Str} {x : Str × FileInfo} :
    x ∈ (s.ldb.scan fun _ => true).filterMap (matching kw) ↔
      s.getFileInfoFromLevelDB x.1 = some x.2 ∧ Go.contains x.2.name kw = true := by
  rw [List.mem_filterMap, Server.getFileInfo_eq_some]
  constructor
  · intro h
    obtain ⟨row, hrow, hx⟩ := h
    obtain ⟨rfl, hname⟩ := matching_eq_some.mp hx
    exact ⟨(Store.mem_scan.mp hrow).1, hname⟩
  · intro h
    obtain ⟨hget, hname⟩ := h
    exact ⟨_, Store.mem_scan.mpr ⟨hget, rfl⟩, matching_eq_some.mpr ⟨rfl, hname⟩⟩

theorem matching_sorted (s : Server) (kw : Str) :
    ((s.ldb.scan fun _ => true).filterMap (matching kw)).Pairwise fun a b => a.1 < b.1 := by
  refine List.Pairwise.filterMap _ ?_ (s.ldb.scan_sorted fun _ => true)
  intro a b hab x hx y hy
  obtain ⟨rfl, -⟩ := matching_eq_some.mp hx
  obtain ⟨rfl, -⟩ := matching_eq_some.mp hy
  exact hab

end

/-- What a search shows is recorded and asked for, each digest once; what it does not show has
    its digest shown, or a hundred others at smaller keys. -/
theorem search_finds (s : Server) (r : Request) : ∃ found, s.search r true = .ok found ∧
    found.length ≤ 100 ∧ (found.map (·.md5)).Nodup ∧
    (∀ v ∈ found, Go.contains v.name (r.formValue "kw".toList) = true ∧ ∃ k, s.getFileInfoFromLevelDB k = some v) ∧
    ∀ k v, s.getFileInfoFromLevelDB k = some v → Go.contains v.name (r.formValue "kw".toList) = true →
      (∃ w ∈ found, w.md5 = v.md5) ∨
        found.length = 100 ∧ ∀ w ∈ found, ∃ k' < k, s.getFileInfoFromLevelDB k' = some w := by
  generalize hkw : r.formValue "kw".toList = kw
  have hsub : (s.hits kw).Sublist ((s.ldb.scan fun _ => true).filterMap (matching kw)) := Store.firsts_sublist _
  have hmem : ∀ {x}, x ∈ s.hits kw → s.getFileInfoFromLevelDB x.1 = some x.2 ∧ Go.contains x.2.name kw = true :=
    fun hx => mem_matching.mp (hsub.subset hx)
  refine ⟨((s.hits kw).take 100).map (·.2), hkw ▸ search_eq s r, ?_, ?_, ?_, ?_⟩
  · rw [List.length_map]
    exact List.length_take_le _ _
  · rw [List.map_map]
    exact (Store.nodup_firsts _).sublist ((List.take_sublist _ _).map _)
  · intro v hv
    obtain ⟨x, hx, rfl⟩ := List.mem_map.mp hv
    obtain ⟨hget, hname⟩ := hmem (List.mem_of_mem_take hx)
    exact ⟨hname, x.1, hget⟩
  · intro k v hget hname
    have hkv : (k, v) ∈ (s.ldb.scan fun _ => true).filterMap (matching kw) := mem_matching.mpr ⟨hget, hname⟩
    obtain ⟨y, hy, hmd5, horder⟩ : ∃ y ∈ s.hits kw, y.2.md5 = v.md5 ∧ (y = (k, v) ∨ y.1 < k) :=
      Store.exists_firsts (matching_sorted s kw) hkv
    by_cases hshown : y ∈ (s.hits kw).take 100
    · exact Or.inl ⟨y.2, List.mem_map_of_mem hshown, hmd5⟩
    · -- behind the first hundred, and they are at smaller keys
      have hsorted := (matching_sorted s kw).sublist hsub
      rw [← List.take_append_drop 100 (s.hits kw)] at hy hsorted
      have hdrop : y ∈ (s.hits kw).drop 100 := (List.mem_append.mp hy).resolve_left hshown
      have hlong : 100 < (s.hits kw).length := List.length_lt_of_drop_ne_nil (List.ne_nil_of_mem hdrop)
      refine Or.inr ⟨by rw [List.length_map, List.length_take]; omega, fun w hw => ?_⟩
      obtain ⟨x, hx, rfl⟩ := List.mem_map.mp hw
      have hxy : x.1 < y.1 := (List.pairwise_append.mp hsorted).2.2 x hx y hdrop
      refine ⟨x.1, ?_, (hmem (List.mem_of_mem_take hx)).1⟩
      rcases horder with rfl | hlt
      · exact hxy
      · exact hxy.trans hlt

/-! ## Listings -/

structure FileInfoResult where
  name : Str
  md5 : Str
  path : Str
  size : Int
  modTime : Int
  isDir : Bool
  deriving DecidableEq, Repr

inductive ListEnd where
  | notPermitted
  | failed (message : Str)
  | ok (data : List FileInfoResult)
  deriving DecidableEq, Repr

def listRow (dir : Str) (dirTime : Int) (e : Str × Node) : FileInfoResult :=
  { name := e.1, size := e.2.size, isDir := e.2 = .dir, modTime := e.2.modTime dirTime, path := dir
    md5 := E.md5 (Go.replaceAll ['/', '/'] ['/'] (STORE_DIR_NAME ++ '/' :: (dir ++ '/' :: e.1))) }

/-- The folder that `ListDir` reads; `readlink` is `os.Readlink`. -/
def listedDir (readlink : Str → Option Str) (r : Request) : Str :=
  let dir := Go.replaceAll ['.'] [] (r.formValue "dir".toList)
  (readlink dir).getD dir

/-- `ListDir`; `isPeer` is the answer of `IsPeer` and `error` the text of an error of the disk. -/
def Server.listDir (s : Server) (r : Request) (isPeer : Bool) (readlink : Str → Option Str) (error : Str) (dirTime : Int) :
    ListEnd :=
  if isPeer = false then .notPermitted
  else
    let dir := listedDir readlink r
    match s.disk.readDir (c.dockerDir ++ STORE_DIR_NAME ++ '/' :: dir) with
    | none => .failed error
    | some filesInfo => .ok (filesInfo.map (listRow E dir dirTime))

section
variable {E c}

theorem listDir_eq_ok {s : Server} {r : Request} {readlink : Str → Option Str} {error : Str} {dirTime : Int}
    {rows : List FileInfoResult} : s.listDir E c r true readlink error dirTime = .ok rows ↔ ∃ es,
      s.disk.readDir (c.dockerDir ++ STORE_DIR_NAME ++ '/' :: listedDir readlink r) = some es ∧
        es.map (listRow E (listedDir readlink r) dirTime) = rows := by
  rw [Server.listDir, if_neg (by decide)]
  dsimp only
  cases s.disk.readDir (c.dockerDir ++ STORE_DIR_NAME ++ '/' :: listedDir readlink r) with
  | none => simp
  | some es => simp

theorem locate_below_store {d : Disk} {l k : Loc} (hstore : d.locate c.STORE_DIR = some l) {dir : Str} (hdots : '.' ∉ dir)
    (hk : d.locate (c.dockerDir ++ STORE_DIR_NAME ++ '/' :: dir) = some k) :
    k = l ++ (dir.splitOn '/').filter (· ≠ []) := by
  have hne : c.STORE_DIR ≠ [] := List.append_ne_nil_of_right_ne_nil _ (by decide)
  have hstart : d.startOf (c.STORE_DIR ++ '/' :: dir) = d.startOf c.STORE_DIR := by
    obtain ⟨x, p, hp⟩ := List.exists_cons_of_ne_nil hne
    rw [hp]
    rfl
  have hparts : ∀ x ∈ dir.splitOn '/', '.' ∉ x := fun x hx hdot => hdots (Go.mem_of_mem_splitOn hx hdot)
  change d.locate (c.STORE_DIR ++ '/' :: dir) = some k at hk
  unfold Disk.locate at hstore hk
  rw [if_neg hne] at hstore
  rw [if_neg (by simp), hstart, List.splitOn_append_cons_self, Disk.walk_append, hstore, Option.bind_some] at hk
  exact d.walk_down hparts hk

end

/-- Whatever a client names, but for a link whose target has a dot, a listing shows the entries of
    a folder in the store, in the order of their names and no other; the names on the way to the
    folder have no dot. -/
theorem listing_stays_in_store {s : Server} {r : Request} {readlink : Str → Option Str} {error : Str} {dirTime : Int}
    {rows : List FileInfoResult} {l : Loc} (hstore : s.disk.locate c.STORE_DIR = some l)
    (hlink : ∀ target, readlink (Go.replaceAll ['.'] [] (r.formValue "dir".toList)) = some target → '.' ∉ target)
    (hok : s.listDir E c r true readlink error dirTime = .ok rows) :
    ∃ folder : List Str, (∀ x ∈ folder, x ≠ [] ∧ '.' ∉ x) ∧ s.disk.isDir (l ++ folder) = true ∧
      (rows.map (·.name)).Pairwise (· < ·) ∧
      ∀ n, (∃ row ∈ rows, row.name = n) ↔ (s.disk.node (l ++ folder ++ [n])).isSome = true := by
  obtain ⟨es, hes, rfl⟩ := listDir_eq_ok.mp hok
  obtain ⟨k, hk, hdir, rfl⟩ := Disk.readDir_eq_some.mp hes
  have hdots : '.' ∉ listedDir readlink r := by
    unfold listedDir
    dsimp only
    cases hl : readlink (Go.replaceAll ['.'] [] (r.formValue "dir".toList)) with
    | none => exact Go.notMem_replaceAll_singleton '.' (r.formValue "dir".toList)
    | some target => exact hlink target hl
  obtain rfl := locate_below_store hstore hdots hk
  refine ⟨_, fun x hx => ?_, hdir, ?_, fun n => ?_⟩
  · obtain ⟨hpart, hne⟩ := List.mem_filter.mp hx
    exact ⟨by simpa using hne, fun hdot => hdots (Go.mem_of_mem_splitOn hpart hdot)⟩
  · rw [List.map_map]
    exact List.pairwise_map.mpr (s.disk.entriesBelow_sorted _)
  · rw [Option.isSome_iff_exists]
    constructor
    · intro h
      obtain ⟨row, hrow, rfl⟩ := h
      obtain ⟨⟨n, node⟩, he, rfl⟩ := List.mem_map.mp hrow
      exact ⟨node, Disk.mem_entriesBelow.mp he⟩
    · intro h
      obtain ⟨node, hnode⟩ := h
      exact ⟨_, List.mem_map_of_mem (Disk.mem_entriesBelow.mpr hnode), rfl⟩

/-- The text of a folder below the store, spelled out: single slashes between its names. -/
structure Spelled (q : Str) : Prop where
  dots : '.' ∉ q
  single : ¬ ['/', '/'] <:+: q
  first : q.head? ≠ some '/'
  last : q.getLast? ≠ some '/'
  nonempty : q ≠ []

section
variable {E c}

theorem listed_text {q : Str} (hq : Spelled q) {a b : Str} (ha : a = [] ∨ a = ['/']) (hb : b = [] ∨ b = ['/']) {n : Str}
    (hn : '/' ∉ n) : Go.replaceAll ['/', '/'] ['/'] (STORE_DIR_NAME ++ '/' :: (a ++ q ++ b ++ '/' :: n)) =
      STORE_DIR_NAME ++ '/' :: (q ++ '/' :: n) := by
  have hfirst : ∀ t, Go.replaceAll ['/', '/'] ['/'] ('/' :: (a ++ q ++ t)) =
      '/' :: (q ++ Go.replaceAll ['/', '/'] ['/'] t) := by
    intro t
    rcases ha with rfl | rfl
    · have hsingle : ¬ ['/', '/'] <:+: '/' :: q := by
        rw [List.infix_cons_iff, not_or]
        refine ⟨fun h => ?_, hq.single⟩
        obtain ⟨u, hu⟩ := (List.cons_prefix_cons.mp h).2
        exact hq.first (by rw [← hu]; rfl)
      have hlast : ('/' :: q).getLast? ≠ some '/' := by
        rw [List.getLast?_cons_of_ne_nil hq.nonempty]
        exact hq.last
      exact Go.replaceAll_pair_append ['/'] t hsingle hlast
    · have hslash : '/' :: (['/'] ++ q ++ t) = '/' :: '/' :: (q ++ t) := by simp
      rw [hslash, Go.replaceAll_pair_pair, Go.replaceAll_pair_append _ _ hq.single hq.last]
      rfl
  have hsecond : Go.replaceAll ['/', '/'] ['/'] (b ++ '/' :: n) = '/' :: n := by
    rcases hb with rfl | rfl
    · have hsingle : ¬ ['/', '/'] <:+: '/' :: n := by
        rw [List.infix_cons_iff, not_or]
        refine ⟨fun h => hn ?_, fun h => hn (h.subset List.mem_cons_self)⟩
        exact (List.cons_prefix_cons.mp h).2.subset List.mem_cons_self
      exact Go.replaceAll_of_not_infix _ hsingle
    · have hname : Go.replaceAll ['/', '/'] ['/'] n = n :=
        Go.replaceAll_of_not_infix _ fun h => hn (h.subset List.mem_cons_self)
      have hslash : ['/'] ++ '/' :: n = '/' :: '/' :: n := rfl
      rw [hslash, Go.replaceAll_pair_pair, hname]
      rfl
  rw [Go.replaceAll_pair_append _ _ (by decide) (by decide), List.append_assoc (a ++ q), hfirst, hsecond]

theorem locate_spelled {d : Disk} {p q a b : Str} (ha : a = [] ∨ a = ['/']) (hb : b = [] ∨ b = ['/']) {k : Loc}
    (hk : d.locate (p ++ '/' :: q) = some k) (hdir : d.isDir k = true) : d.locate (p ++ '/' :: (a ++ q ++ b)) = some k := by
  have hfirst : d.locate (p ++ '/' :: (a ++ q)) = some k := by
    rcases ha with rfl | rfl
    · exact hk
    · rw [← hk]
      exact Disk.locate_slashes d p q
  rcases hb with rfl | rfl
  · rwa [List.append_nil]
  · have hslash : p ++ '/' :: (a ++ q ++ ['/']) = p ++ '/' :: (a ++ q) ++ ['/'] := by simp
    rw [hslash]
    exact Disk.locate_slash (by simp) hfirst hdir

end

/-- A stored file is shown in its folder, with a digest that leads to its record. -/
theorem listed_digest_leads_to_record {s : Server} {r : Request} {fi : FileInfo} {q x : Str} (hq : Spelled q)
    (hpath : fi.path = STORE_DIR_NAME ++ '/' :: q) (hentry : Disk.IsEntry fi.outname) (hmd5 : fi.md5 ≠ [])
    (hread : s.disk.read (getFilePathByInfo c fi) = some x) {a b : Str} (ha : a = [] ∨ a = ['/']) (hb : b = [] ∨ b = ['/'])
    (hr : r.formValue "dir".toList = a ++ q ++ b) {readlink : Str → Option Str} (hlink : readlink (a ++ q ++ b) = none)
    (error : Str) (dirTime : Int) :
    ∃ rows, s.listDir E c r true readlink error dirTime = .ok rows ∧
      ∃ row ∈ rows, row.name = fi.outname ∧ row.size = x.length ∧ row.isDir = false ∧ LeadsTo E fi row.md5 := by
  have hdots : Go.replaceAll ['.'] [] (a ++ q ++ b) = a ++ q ++ b := by
    refine Go.replaceAll_of_not_infix _ fun h => ?_
    have hmem : '.' ∈ a ++ q ++ b := h.subset List.mem_cons_self
    have hends : '.' ∉ a ∧ '.' ∉ b := by
      rcases ha with rfl | rfl <;> rcases hb with rfl | rfl <;> decide
    simp only [List.mem_append, hends.1, hends.2, hq.dots, or_self] at hmem
  have hdir : listedDir readlink r = a ++ q ++ b := by
    simp only [listedDir, hr, hdots, hlink, Option.getD_none]
  obtain ⟨l, t, hl, hnode⟩ := Disk.read_eq_some.mp hread
  have hfile : getFilePathByInfo c fi = c.dockerDir ++ STORE_DIR_NAME ++ '/' :: q ++ '/' :: fi.outname := by
    rw [getFilePathByInfo, FileInfo.fullpath, hpath]
    simp
  rw [hfile, Disk.locate_child (by simp) hentry] at hl
  obtain ⟨k, hk, hkl⟩ := Option.bind_eq_some_iff.mp hl
  obtain ⟨hk', rfl⟩ : s.disk.isDir k = true ∧ k ++ [fi.outname] = l := by simpa using hkl
  have hlisted := locate_spelled ha hb hk hk'
  rw [← hdir] at hlisted
  refine ⟨_, listDir_eq_ok.mpr ⟨_, Disk.readDir_eq_some.mpr ⟨k, hlisted, hk', rfl⟩, rfl⟩, _,
    List.mem_map_of_mem (Disk.mem_entriesBelow.mpr hnode), rfl, rfl, rfl, ?_⟩
  refine (leadsTo_iff hmd5).mpr (Or.inr ?_)
  rw [listRow, hdir, listed_text hq ha hb hentry.slash, FileInfo.fullpath, hpath]
  simp

/-! ## Fixed inputs -/

def listedRecord : FileInfo :=
  { name := "a.txt".toList, path := "files/default/b".toList, md5 := "m".toList, size := 5, offSet := -1 }

def listedNode : Server := { disk := Disk.ofFiles [("files/default/b/a.txt".toList, "hello".toList)] }

theorem a_listed_file_is_found :
    ∃ rows, listedNode.listDir Env.plain {} { requestURI := "/list_dir?dir=/default/b".toList } true (fun _ => none) [] 0 =
        .ok rows ∧
      ∃ row ∈ rows, row.name = "a.txt".toList ∧ row.size = 5 ∧ row.isDir = false ∧ LeadsTo Env.plain listedRecord row.md5 := by
  have hq : Spelled "default/b".toList := ⟨by decide, by decide, by decide, by decide, by decide⟩
  have hentry : Disk.IsEntry listedRecord.outname := ⟨by decide, by decide, by decide, by decide⟩
  have hread : listedNode.disk.read (getFilePathByInfo {} listedRecord) = some "hello".toList := by decide +kernel
  exact listed_digest_leads_to_record Env.plain {} hq rfl hentry (by decide) hread (Or.inr rfl) (Or.inl rfl)
    (by decide +kernel) rfl [] 0

/-- Dots are taken out of what a client names: it is shown the folder `default`. -/
theorem a_listing_stays_in_store : ∃ folder : List Str, (∀ x ∈ folder, x ≠ [] ∧ '.' ∉ x) ∧
    listedNode.disk.isDir (["files".toList] ++ folder) = true := by
  have hstore : listedNode.disk.locate (Config.STORE_DIR {}) = some ["files".toList] := by decide +kernel
  have hok : ∃ rows, listedNode.listDir Env.plain {} { requestURI := "/list_dir?dir=../default".toList }
      true (fun _ => none) [] 0 =
      .ok rows := ⟨[listRow Env.plain "/default".toList 0 ("b".toList, .dir)], by decide +kernel⟩
  obtain ⟨rows, hrows⟩ := hok
  obtain ⟨folder, hnames, hdir, -⟩ := listing_stays_in_store Env.plain {} hstore (fun _ h => by cases h) hrows
  exact ⟨folder, hnames, hdir⟩

def linkedNode : Server :=
  { disk := Disk.ofFiles [("files/a.txt".toList, "hello".toList), ("log/b.txt".toList, "seen".toList)] }

/-- In the working directory `x` is a link to `../log`: its name is that of the folder `log`, which
    is outside the store. -/
theorem a_linked_listing_leaves_the_store :
    linkedNode.listDir Env.plain {} { requestURI := "/list_dir?dir=x".toList } true
        (fun p => if p = "x".toList then some "../log".toList else none) [] 0 =
      .ok [listRow Env.plain "../log".toList 0 ("b.txt".toList, .file "seen".toList 0)] ∧
    linkedNode.disk.locate "log".toList = some ["log".toList] ∧
    linkedNode.disk.locate (Config.STORE_DIR {}) = some ["files".toList] := by
  decide +kernel

end GoFastdfs
