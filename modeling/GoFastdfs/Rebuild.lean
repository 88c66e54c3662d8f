/-
  GoFastdfs.Rebuild — the records made anew from the files that are there
  (`RepairFileInfoFromFile` of `http_repair.go`).

  The store, or what it is a link to, is walked. For each file of a directory that is not
  empty the path of the directory is rewritten: slashes for backslashes, the first
  `DOCKER_DIR` out, `files` for the first occurrence of the link's target. The variable is
  the one the directory was come to with, so the next file's rewriting begins with the path
  that is left by the last one's. A path that begins with `files/haystack` is passed over,
  and a file that cannot be opened under the path made; any other is recorded, with the
  digest of what was opened.

  Proved: every file outside `haystack`, `_tmp` and `_big` gets a record that leads to its
  bytes, and none inside gets one, exactly if the paths rewritten as often as there are files
  before lead there (`rebuilds_iff`), as they do where a path that is rewritten once is not
  changed by a second time (`rebuildsWhen_of_settled`).
-/

import GoFastdfs.Sync
import GoFastdfs.Upload
import GoFastdfs.EmptyFolders

namespace GoFastdfs

open Go (Str Tree Stop lstat visit visitAll join)

variable (E : Env) (c : Config)

/-! ## The code -/

/-- What the system tells of a path: what it leads to, with links followed, and of a link its
    target. -/
structure Files where
  stat : Str → Option Tree
  readlink : Str → Option Str
  listed : ∀ p t, stat p = some t → t.Listed

structure Rebuilt where
  folder : Loc
  record : FileInfo
  deriving DecidableEq

variable (os : Files) (host : Str)

/-- `GetFileSumByName`: a directory can be opened, and has no bytes. -/
def getFileSumByName (path : Str) : Option Str :=
  (os.stat path).map fun
    | .file data _ => fileSum E c data
    | .dir _ => fileSum E c []

def walkedFrom : Str × Str :=
  match os.readlink c.STORE_DIR with
  | none => (c.STORE_DIR, [])
  | some target => (target, if target.getLast? = some '/' then target.dropLast else target)

def rewritePath (filePath : Str) : Str :=
  let filePath := Go.replaceAll ['\\'] ['/'] filePath
  let filePath := if c.dockerDir ≠ [] then Go.replaceFirst c.dockerDir [] filePath else filePath
  if (walkedFrom c os).2 ≠ [] then Go.replaceFirst (walkedFrom c os).2 STORE_DIR_NAME filePath else filePath

def ignored (filePath : Str) : Bool := Go.hasPrefix filePath (STORE_DIR_NAME ++ '/' :: LARGE_DIR_NAME)

def rebuild (l : Loc) (filePath name data : Str) (mtime : Int) : Option Rebuilt :=
  if ignored filePath = true then none
  else (getFileSumByName E c os (c.dockerDir ++ filePath ++ '/' :: name)).map fun sum =>
    { folder := l
      record := { size := data.length, name := name, path := filePath, md5 := sum, timeStamp := mtime
                  peers := [host], offSet := -2 } }

def rebuildDir (l : Loc) : Str → List (Str × Tree) → List Rebuilt
  | _, [] => []
  | filePath, (_, .dir _) :: files => rebuildDir l filePath files
  | filePath, (name, .file data mtime) :: files =>
    if data = [] then rebuildDir l filePath files
    else
      let filePath := rewritePath c os filePath
      match rebuild E c os host l filePath name data mtime with
      | none => rebuildDir l filePath files
      | some r => r :: rebuildDir l filePath files

/-- `handlefunc`; without an `os.FileInfo` it panics, which ends the walk. -/
def rebuildStep (filePath : Str) (l : Loc) (info : Option Tree) (saved : List Rebuilt) : List Rebuilt × Option Stop :=
  match info with
  | none => (saved, some .err)
  | some f => if f.isDir = true then (saved ++ rebuildDir E c os host l filePath f.entries, none) else (saved, none)

/-- What is walked: nothing if there is no directory, or another link. -/
def walkedTree : Option Tree :=
  match os.stat (walkedFrom c os).1 with
  | some (.dir es) => if os.readlink (walkedFrom c os).1 = none then some (.dir es) else none
  | _ => none

def rebuilt : Option (List Rebuilt) :=
  match walkedTree c os with
  | none => some []
  | some tree =>
    (Go.filepathWalk (fun _ => some tree) (rebuildStep E c os host) (walkedFrom c os).1 [] []).map Prod.fst

namespace Server

def saveRebuilt (s : Server) (r : Rebuilt) : Server :=
  (s.appendToQueue r.record).saveFileInfoToLevelDB E r.record.md5 r.record .ldb

def repairFileInfoFromFile (s : Server) : Option Server :=
  (rebuilt E c os s.host).map fun saved => saved.foldl (saveRebuilt E) s

end Server

/-! ## What is to be saved -/

/-- At or below `haystack`, `_tmp` or `_big`. -/
def SetAside (l : Loc) : Prop := l.head? = some LARGE_DIR_NAME ∨ InSpecial l

instance (l : Loc) : Decidable (SetAside l) := inferInstanceAs (Decidable (_ ∨ _))

/-- Each file of the store has a record with its digest and its size that leads to its bytes;
    none is saved for one that is set aside. -/
structure Rebuilds (saved : List Rebuilt) : Prop where
  each : ∀ tree l name data mtime, os.stat c.STORE_DIR = some tree → tree.find (l ++ [name]) = some (.file data mtime) →
    data ≠ [] → ¬ SetAside l → ∃ r ∈ saved, r.record.md5 = fileSum E c data ∧ r.record.size = data.length ∧
      ∃ t, os.stat (c.dockerDir ++ r.record.path ++ '/' :: r.record.name) = some (.file data t)
  aside : os.stat c.STORE_DIR = walkedTree c os → ∀ r ∈ saved, ¬ SetAside r.folder

def fullFiles (files : List (Str × Tree)) : List (Str × Str × Int) :=
  files.filterMap fun
    | (name, .file data mtime) => if data = [] then none else some (name, data, mtime)
    | (_, .dir _) => none

/-- The walk comes to the file `name` of `l`, of these bytes, and the path is then `filePath`. -/
def ComesTo (l : Loc) (name data : Str) (mtime : Int) (filePath : Str) : Prop :=
  ∃ tree es i, walkedTree c os = some tree ∧ tree.find l = some (.dir es) ∧
    (fullFiles es)[i]? = some (name, data, mtime) ∧
    filePath = (rewritePath c os)^[i + 1] (l.foldl join (walkedFrom c os).1)

structure RebuildsWhen : Prop where
  each : ∀ tree l name data mtime, os.stat c.STORE_DIR = some tree → tree.find (l ++ [name]) = some (.file data mtime) →
    data ≠ [] → ¬ SetAside l → ∃ k n x t p, ComesTo c os k n x t p ∧ x.length = data.length ∧ ignored p = false ∧
      ∃ t, os.stat (c.dockerDir ++ p ++ '/' :: n) = some (.file data t)
  aside : os.stat c.STORE_DIR = walkedTree c os → ∀ l n x t p, ComesTo c os l n x t p → SetAside l →
    ignored p = true ∨ os.stat (c.dockerDir ++ p ++ '/' :: n) = none

section
variable {E c os host}

/-! ## One directory -/

theorem fullFiles_cons_file (name data : Str) (mtime : Int) (files : List (Str × Tree)) :
    fullFiles ((name, .file data mtime) :: files) =
      if data = [] then fullFiles files else (name, data, mtime) :: fullFiles files := by
  rw [fullFiles, List.filterMap_cons]
  split <;> simp_all [fullFiles]

theorem mem_rebuildDir {l : Loc} {r : Rebuilt} : ∀ {files : List (Str × Tree)} {p : Str},
    r ∈ rebuildDir E c os host l p files ↔ ∃ i name data mtime, (fullFiles files)[i]? = some (name, data, mtime) ∧
      rebuild E c os host l ((rewritePath c os)^[i + 1] p) name data mtime = some r
  | [], p => by simp [rebuildDir, fullFiles]
  | (n, .dir es) :: files, p => by
    have hskip : fullFiles ((n, .dir es) :: files) = fullFiles files := rfl
    rw [rebuildDir, hskip, mem_rebuildDir]
  | (n, .file x t) :: files, p => by
    rw [rebuildDir, fullFiles_cons_file]
    by_cases hx : x = []
    · rw [if_pos hx, if_pos hx, mem_rebuildDir]
    rw [if_neg hx, if_neg hx]
    have hfirst : (r ∈ match rebuild E c os host l (rewritePath c os p) n x t with
        | none => rebuildDir E c os host l (rewritePath c os p) files
        | some r => r :: rebuildDir E c os host l (rewritePath c os p) files) ↔
        rebuild E c os host l (rewritePath c os p) n x t = some r ∨
          r ∈ rebuildDir E c os host l (rewritePath c os p) files := by
      cases rebuild E c os host l (rewritePath c os p) n x t <;> simp [eq_comm]
    rw [hfirst, mem_rebuildDir]
    constructor
    · intro h
      rcases h with h | ⟨i, name, data, mtime, hi, hr⟩
      · exact ⟨0, n, x, t, rfl, h⟩
      · exact ⟨i + 1, name, data, mtime, hi, hr⟩
    · intro h
      obtain ⟨i, name, data, mtime, hi, hr⟩ := h
      cases i with
      | zero =>
        cases hi
        exact Or.inl hr
      | succ i => exact Or.inr ⟨i, name, data, mtime, hi, hr⟩

/-! ## The walk -/

mutual

def collect (E : Env) (c : Config) (os : Files) (host : Str) : Tree → Str → Loc → List Rebuilt
  | .file _ _, _, _ => []
  | .dir es, p, l => rebuildDir E c os host l p es ++ collectIn E c os host es p l

def collectIn (E : Env) (c : Config) (os : Files) (host : Str) : List (Str × Tree) → Str → Loc → List Rebuilt
  | [], _, _ => []
  | (n, t) :: es, p, l => collect E c os host t (join p n) (l ++ [n]) ++ collectIn E c os host es p l

end

theorem rebuildStep_prunes (tree : Tree) : Go.Prunes (fun _ => some tree) (rebuildStep E c os host) :=
  ⟨fun _ _ _ _ _ _ => rfl, fun _ _ _ _ => Or.inl rfl⟩

theorem visitAll_rebuildStep {tree : Tree} {p : Str} {l : Loc} : ∀ {es : List (Str × Tree)},
    (∀ e ∈ es, ∀ p l saved, lstat (fun _ => some tree) saved l = some e.2 →
      visit (fun _ => some tree) (rebuildStep E c os host) e.2 p l saved = (saved ++ collect E c os host e.2 p l, none)) →
    ∀ saved, (∀ e ∈ es, tree.find (l ++ [e.1]) = some e.2) →
      visitAll (fun _ => some tree) (rebuildStep E c os host) es p l saved = (saved ++ collectIn E c os host es p l, none)
  | [], _, saved, _ => by simp [visitAll, collectIn]
  | (n, t) :: es, hes, saved, hthere => by
    have hlstat : lstat (fun _ => some tree) saved (l ++ [n]) = some t := hthere _ List.mem_cons_self
    have hvisit := hes _ List.mem_cons_self (join p n) (l ++ [n]) saved hlstat
    have hrest := visitAll_rebuildStep (p := p) (fun e he => hes e (List.mem_cons_of_mem _ he))
      (saved ++ collect E c os host t (join p n) (l ++ [n])) fun e he => hthere e (List.mem_cons_of_mem _ he)
    rw [collectIn, ← List.append_assoc, ← hrest]
    simp only [visitAll, hlstat, hvisit]

theorem visit_rebuildStep {tree t : Tree} (ht : t.Listed) : ∀ (p : Str) (l : Loc) (saved : List Rebuilt),
    lstat (fun _ => some tree) saved l = some t →
      visit (fun _ => some tree) (rebuildStep E c os host) t p l saved = (saved ++ collect E c os host t p l, none) := by
  induction t using Tree.induct with
  | file data mtime => exact fun p l saved _ => by simp [visit, rebuildStep, Tree.isDir, collect]
  | dir es ih =>
    intro p l saved hl
    cases ht with
    | dir hsorted _ hbelow =>
      have hall := visitAll_rebuildStep (p := p) (l := l) (fun e he => ih e he (hbelow e he))
        (saved ++ rebuildDir E c os host l p es) fun e he => Go.lstat_entry hl hsorted he
      rw [collect, ← List.append_assoc, ← hall]
      rfl

theorem mem_collectIn {r : Rebuilt} {p : Str} {l : Loc} : ∀ {es : List (Str × Tree)},
    r ∈ collectIn E c os host es p l ↔ ∃ e ∈ es, r ∈ collect E c os host e.2 (join p e.1) (l ++ [e.1])
  | [] => by simp [collectIn]
  | (n, t) :: es => by simp [collectIn, mem_collectIn ]

theorem mem_collect {r : Rebuilt} {t : Tree} (ht : t.Listed) : ∀ {p : Str} {l : Loc}, r ∈ collect E c os host t p l ↔
    ∃ k es, t.find k = some (.dir es) ∧ r ∈ rebuildDir E c os host (l ++ k) (k.foldl join p) es := by
  induction t using Tree.induct with
  | file data mtime =>
    intro p l
    refine iff_of_false (by simp [collect]) fun h => ?_
    obtain ⟨k, es, hk, _⟩ := h
    cases k <;> simp [Tree.find, Tree.entries] at hk
  | dir es ih =>
    intro p l
    cases ht with
    | dir hsorted _ hbelow =>
      rw [collect, List.mem_append, mem_collectIn]
      constructor
      · intro h
        rcases h with h | ⟨e, he, h⟩
        · exact ⟨[], es, rfl, by rwa [List.append_nil]⟩
        · obtain ⟨k, es', hk, hr⟩ := (ih e he (hbelow e he)).mp h
          refine ⟨e.1 :: k, es', (Tree.Listed.find_cons hsorted he k).trans hk, ?_⟩
          rwa [List.append_assoc, List.singleton_append] at hr
      · intro h
        obtain ⟨k, es', hk, hr⟩ := h
        rcases k with _ | ⟨n, k⟩
        · cases hk
          exact Or.inl (by rwa [List.append_nil] at hr)
        · obtain ⟨t, hmem, hfind⟩ := Tree.find_cons_eq_some hk
          refine Or.inr ⟨(n, t), hmem, (ih _ hmem (hbelow _ hmem)).mpr ⟨k, es', hfind, ?_⟩⟩
          rwa [List.append_assoc, List.singleton_append]

theorem walkedTree_listed {tree : Tree} (h : walkedTree c os = some tree) : tree.Listed := by
  unfold walkedTree at h
  split at h
  · rename_i es hstat
    split at h
    · cases h
      exact os.listed _ _ hstat
    · cases h
  · cases h

variable (E c os host) in
/-- What is saved: a record for each file that the walk comes to, if it is not passed over and can be
    opened under its rewritten path. -/
theorem rebuilt_eq : ∃ saved, rebuilt E c os host = some saved ∧ ∀ r, r ∈ saved ↔
    ∃ l name data mtime p, ComesTo c os l name data mtime p ∧ rebuild E c os host l p name data mtime = some r := by
  unfold rebuilt
  cases hw : walkedTree c os with
  | none =>
    refine ⟨[], rfl, fun r => iff_of_false List.not_mem_nil fun h => ?_⟩
    obtain ⟨l, name, data, mtime, p, ⟨tree, _, _, htree, _⟩, _⟩ := h
    rw [hw] at htree
    cases htree
  | some tree =>
    have ht := walkedTree_listed hw
    have hstart : lstat (fun _ => some tree) ([] : List Rebuilt) [] = some tree := rfl
    have hprunes : Go.Prunes (fun _ => some tree) (rebuildStep E c os host) := rebuildStep_prunes tree
    refine ⟨collect E c os host tree (walkedFrom c os).1 [], ?_, fun r => ?_⟩
    · simp only [Go.filepathWalk_eq hprunes ht hstart, visit_rebuildStep ht _ _ _ hstart]
      rfl
    · rw [mem_collect ht]
      constructor
      · intro h
        obtain ⟨l, es, hl, hr⟩ := h
        obtain ⟨i, name, data, mtime, hi, hr⟩ := mem_rebuildDir.mp hr
        exact ⟨l, name, data, mtime, _, ⟨tree, es, i, hw, hl, hi, rfl⟩, hr⟩
      · intro h
        obtain ⟨l, name, data, mtime, p, ⟨_, es, i, htree, hl, hi, rfl⟩, hr⟩ := h
        obtain rfl := Option.some.inj (hw.symm.trans htree)
        exact ⟨l, es, hl, mem_rebuildDir.mpr ⟨i, name, data, mtime, hi, hr⟩⟩

/-! ## The records -/

theorem rebuild_eq_some {l : Loc} {p n x : Str} {t : Int} {r : Rebuilt} (h : rebuild E c os host l p n x t = some r) :
    ignored p = false ∧ r.folder = l ∧ r.record.path = p ∧ r.record.name = n ∧ r.record.size = x.length ∧
      getFileSumByName E c os (c.dockerDir ++ p ++ '/' :: n) = some r.record.md5 := by
  unfold rebuild at h
  split at h
  · cases h
  · rename_i hp
    obtain ⟨sum, hsum, rfl⟩ := Option.map_eq_some_iff.mp h
    exact ⟨by simpa using hp, rfl, rfl, rfl, rfl, hsum⟩

theorem rebuild_isSome (host : Str) (l : Loc) {p n : Str} (x : Str) (t : Int) (hp : ignored p = false) {sum : Str}
    (hsum : getFileSumByName E c os (c.dockerDir ++ p ++ '/' :: n) = some sum) :
    ∃ r, rebuild E c os host l p n x t = some r := by
  rw [rebuild, if_neg (by simp [hp]), hsum]
  exact ⟨_, rfl⟩

theorem saveRebuilt_get (s : Server) (r : Rebuilt) (key : Str) : (s.saveRebuilt E r).getFileInfoFromLevelDB key =
    if key = r.record.md5 then some r.record.persist else s.getFileInfoFromLevelDB key := by
  simp only [Server.saveRebuilt, Server.saveFileInfoToLevelDB, Server.appendToQueue, Server.getFileInfoFromLevelDB,
    Store.get_put]
  by_cases hkey : key = r.record.md5
  · rw [if_pos hkey, if_pos hkey]
  · rw [if_neg hkey, if_neg hkey]

theorem foldl_saveRebuilt_get (key : Str) : ∀ (saved : List Rebuilt) (s : Server),
    (saved.foldl (Server.saveRebuilt E) s).getFileInfoFromLevelDB key =
      match (saved.filter fun r => r.record.md5 == key).getLast? with
      | some r => some r.record.persist
      | none => s.getFileInfoFromLevelDB key
  | [], _ => rfl
  | r :: saved, s => by
    rw [List.foldl_cons, foldl_saveRebuilt_get, saveRebuilt_get]
    by_cases hr : key = r.record.md5
    · rw [List.filter_cons_of_pos (by simp [hr]), List.getLast?_cons, if_pos hr]
      cases (saved.filter fun r => r.record.md5 == key).getLast? <;> rfl
    · rw [List.filter_cons_of_neg (by simpa using Ne.symm hr), if_neg hr]

variable (E c os) in
/-- After the run every digest that was saved has a record, one of those that were saved with it. -/
theorem repairFileInfoFromFile_get (s : Server) : ∃ s' saved, s.repairFileInfoFromFile E c os = some s' ∧
    rebuilt E c os s.host = some saved ∧ ∀ r ∈ saved, ∃ r' ∈ saved, r'.record.md5 = r.record.md5 ∧
      s'.getFileInfoFromLevelDB r.record.md5 = some r'.record.persist := by
  obtain ⟨saved, hrun, _⟩ := rebuilt_eq E c os s.host
  refine ⟨_, saved, by rw [Server.repairFileInfoFromFile, hrun]; rfl, hrun, fun r hr => ?_⟩
  have hne : (saved.filter fun x => x.record.md5 == r.record.md5) ≠ [] :=
    List.ne_nil_of_mem (List.mem_filter.mpr ⟨hr, by simp⟩)
  have hlast := List.getLast_mem hne
  obtain ⟨hmem, hsame⟩ := List.mem_filter.mp hlast
  refine ⟨_, hmem, by simpa using hsame, ?_⟩
  rw [foldl_saveRebuilt_get, List.getLast?_eq_some_getLast hne]

variable (E c os) in
/-- Every file that is not set aside has a record that leads to its bytes, and no other file has one,
    exactly if the paths that the walk makes lead there, and nowhere for the others. -/
theorem rebuilds_iff (s : Server) : ∃ s' saved, s.repairFileInfoFromFile E c os = some s' ∧
    rebuilt E c os s.host = some saved ∧
    (∀ r ∈ saved, ∃ r' ∈ saved, r'.record.md5 = r.record.md5 ∧
      s'.getFileInfoFromLevelDB r.record.md5 = some r'.record.persist) ∧
    (Rebuilds E c os saved ↔ RebuildsWhen c os) := by
  obtain ⟨s', saved, hs', hrun, hget⟩ := repairFileInfoFromFile_get E c os s
  obtain ⟨_, hrun', hmem⟩ := rebuilt_eq E c os s.host
  obtain rfl := Option.some.inj (hrun.symm.trans hrun')
  refine ⟨s', saved, hs', hrun, hget, ?_⟩
  constructor
  · intro h
    refine ⟨fun tree l name data mtime hstore hfile hdata haside => ?_, fun hstore l n x t p hcomes haside => ?_⟩
    · obtain ⟨r, hr, _, hsize, u, hu⟩ := h.each tree l name data mtime hstore hfile hdata haside
      obtain ⟨k, n, x, t, p, hcomes, hrebuild⟩ := (hmem r).mp hr
      obtain ⟨hp, _, rfl, rfl, hx, _⟩ := rebuild_eq_some hrebuild
      exact ⟨k, _, x, t, _, hcomes, by omega, hp, u, hu⟩
    · by_contra hneither
      rw [not_or] at hneither
      obtain ⟨u, hu⟩ := Option.ne_none_iff_exists'.mp hneither.2
      obtain ⟨r, hr⟩ := rebuild_isSome (E := E) s.host l x t (by simpa using hneither.1)
        (by rw [getFileSumByName, hu]; rfl)
      refine h.aside hstore r ((hmem r).mpr ⟨l, n, x, t, p, hcomes, hr⟩) ?_
      rwa [(rebuild_eq_some hr).2.1]
  · intro h
    refine ⟨fun tree l name data mtime hstore hfile hdata haside => ?_, fun hstore r hr haside => ?_⟩
    · obtain ⟨k, n, x, t, p, hcomes, hx, hp, u, hu⟩ := h.each tree l name data mtime hstore hfile hdata haside
      have hsum : getFileSumByName E c os (c.dockerDir ++ p ++ '/' :: n) = some (fileSum E c data) := by
        rw [getFileSumByName, hu]
        rfl
      obtain ⟨r, hr⟩ := rebuild_isSome s.host k x t hp hsum
      obtain ⟨_, _, hpath, hname, hsize, hmd5⟩ := rebuild_eq_some hr
      refine ⟨r, (hmem r).mpr ⟨k, n, x, t, p, hcomes, hr⟩, ?_, by omega, u, by rw [hpath, hname, hu]⟩
      exact Option.some.inj (hmd5.symm.trans hsum)
    · obtain ⟨k, n, x, t, p, hcomes, hrebuild⟩ := (hmem r).mp hr
      obtain ⟨hp, rfl, _, _, _, hsum⟩ := rebuild_eq_some hrebuild
      rcases h.aside hstore _ n x t p hcomes haside with hignored | hnowhere
      · rw [hp] at hignored
        cases hignored
      · rw [getFileSumByName, hnowhere] at hsum
        cases hsum

/-! ## Paths that are settled -/

theorem mem_fullFiles {n x : Str} {t : Int} {es : List (Str × Tree)} :
    (n, x, t) ∈ fullFiles es ↔ (n, Tree.file x t) ∈ es ∧ x ≠ [] := by
  rw [fullFiles, List.mem_filterMap]
  constructor
  · intro h
    obtain ⟨⟨m, u⟩, hmem, hu⟩ := h
    cases u with
    | dir => cases hu
    | file y s =>
      dsimp only at hu
      split at hu
      · cases hu
      · cases hu
        exact ⟨hmem, ‹_›⟩
  · intro h
    exact ⟨_, h.1, if_neg h.2⟩

theorem ComesTo.file {l : Loc} {n x p : Str} {t : Int} (h : ComesTo c os l n x t p) {tree : Tree}
    (htree : walkedTree c os = some tree) : tree.find (l ++ [n]) = some (.file x t) ∧ x ≠ [] := by
  obtain ⟨tree', es, i, hw, hl, hi, _⟩ := h
  obtain rfl := Option.some.inj (htree.symm.trans hw)
  obtain ⟨hmem, hx⟩ := mem_fullFiles.mp (List.mem_of_getElem? hi)
  have hlisted := ((walkedTree_listed hw).find hl).1
  refine ⟨?_, hx⟩
  cases hlisted with
  | dir hsorted _ _ =>
    rw [Tree.find_append, hl, Option.bind_some, Tree.find_single, Tree.entries, Tree.Listed.lookup hsorted hmem]

theorem exists_comesTo {tree : Tree} (htree : walkedTree c os = some tree) {l : Loc} {n x : Str} {t : Int}
    (h : tree.find (l ++ [n]) = some (.file x t)) (hx : x ≠ []) : ∃ p, ComesTo c os l n x t p := by
  rw [Tree.find_append] at h
  obtain ⟨u, hu, hn⟩ := Option.bind_eq_some_iff.mp h
  cases u with
  | file => simp [Tree.find, Tree.entries] at hn
  | dir es =>
    rw [Tree.find_single] at hn
    obtain ⟨i, hi⟩ := List.getElem?_of_mem (mem_fullFiles.mpr ⟨Tree.mem_of_lookup hn, hx⟩)
    exact ⟨_, tree, es, i, htree, hu, hi, rfl⟩

variable (c os) in
/-- The path of the directory, rewritten once, is not changed by a second time, and leads to the
    file; it is passed over exactly if the file is set aside. -/
structure Settled (l : Loc) (n x : Str) (t : Int) (p : Str) : Prop where
  once : rewritePath c os (l.foldl join (walkedFrom c os).1) = p
  again : rewritePath c os p = p
  leads : os.stat (c.dockerDir ++ p ++ '/' :: n) = some (.file x t)
  aside : ignored p = true ↔ SetAside l

theorem ComesTo.settled {l : Loc} {n x p q : Str} {t : Int} (h : ComesTo c os l n x t q) (hs : Settled c os l n x t p) :
    q = p := by
  obtain ⟨_, _, i, _, _, _, rfl⟩ := h
  rw [Function.iterate_succ_apply, hs.once, Function.iterate_fixed hs.again]

theorem rebuildsWhen_of_settled {tree : Tree} (hstore : os.stat c.STORE_DIR = some tree)
    (hwalked : walkedTree c os = some tree)
    (h : ∀ l n x t, tree.find (l ++ [n]) = some (.file x t) → x ≠ [] → ∃ p, Settled c os l n x t p) :
    RebuildsWhen c os := by
  refine ⟨fun tree' l n x t htree hfile hx haside => ?_, fun _ l n x t q hcomes haside => ?_⟩
  · obtain rfl := Option.some.inj (hstore.symm.trans htree)
    obtain ⟨p, hp⟩ := h l n x t hfile hx
    obtain ⟨q, hcomes⟩ := exists_comesTo hwalked hfile hx
    obtain rfl := hcomes.settled hp
    exact ⟨l, n, x, t, q, hcomes, rfl, by simpa using hp.aside.not.mpr haside, t, hp.leads⟩
  · obtain ⟨hfile, hx⟩ := hcomes.file hwalked
    obtain ⟨p, hp⟩ := h l n x t hfile hx
    rw [hcomes.settled hp]
    exact Or.inl (hp.aside.mpr haside)

theorem rewritePath_of_plain (hdocker : c.dockerDir = []) (hlink : os.readlink c.STORE_DIR = none) {p : Str} (hp : '\\' ∉ p) :
    rewritePath c os p = p := by
  have hinfix : ¬ ['\\'] <:+: p := fun h => hp (h.subset List.mem_cons_self)
  have hfrom : (walkedFrom c os).2 = [] := by rw [walkedFrom, hlink]
  simp [rewritePath, Go.replaceAll_of_not_infix _ hinfix, hdocker, hfrom]

/-- A store in the working directory is rebuilt if no folder of a file has a backslash in its path,
    `_tmp` and `_big` have no bytes in them and `haystack` alone begins so. -/
theorem rebuildsWhen_of_plain (hdocker : c.dockerDir = []) (hlink : os.readlink c.STORE_DIR = none) {es : List (Str × Tree)}
    (hstore : os.stat c.STORE_DIR = some (.dir es))
    (h : ∀ l n x t, (Tree.dir es).find (l ++ [n]) = some (.file x t) → x ≠ [] → '\\' ∉ walkedPath c l ∧
      os.stat (walkedPath c l ++ '/' :: n) = some (.file x t) ∧ (ignored (walkedPath c l) = true ↔ SetAside l)) :
    RebuildsWhen c os := by
  have hfrom : (walkedFrom c os).1 = c.STORE_DIR := by rw [walkedFrom, hlink]
  have hwalked : walkedTree c os = some (.dir es) := by simp only [walkedTree, hfrom, hstore, hlink, if_true]
  refine rebuildsWhen_of_settled hstore hwalked fun l n x t hfile hx => ?_
  obtain ⟨hslash, hleads, haside⟩ := h l n x t hfile hx
  have hfixed := rewritePath_of_plain hdocker hlink hslash
  exact ⟨walkedPath c l, by rw [hfrom]; exact hfixed, hfixed, by rw [hdocker]; exact hleads, haside⟩

end

def Files.ofTree (root : Str) (tree : Tree) (h : tree.Listed) : Files where
  stat p :=
    if p = root then some tree
    else if (root ++ ['/']).isPrefixOf p = true then tree.find ((p.drop (root.length + 1)).splitOn '/') else none
  readlink _ := none
  listed p t ht := by
    split at ht
    · rwa [← Option.some.inj ht]
    · split at ht
      · exact (h.find ht).1
      · cases ht

theorem Files.ofTree_stat {root : Str} {tree : Tree} (h : tree.Listed) {p : Str} (hne : p ≠ root)
    (hpre : (root ++ ['/']).isPrefixOf p = true) :
    (Files.ofTree root tree h).stat p = tree.find ((p.drop (root.length + 1)).splitOn '/') := by
  simp only [Files.ofTree, if_neg hne, if_pos hpre]

theorem plainStore_file {k : Loc} {x : Str} {t : Int} (h : plainStore.find k = some (.file x t)) :
    k = ["a".toList] ++ ["f".toList] ∧ x = "hello".toList ∧ t = 0 := by
  rcases k with _ | ⟨n, k⟩
  · cases h
  obtain ⟨u, hmem, hu⟩ := Tree.find_cons_eq_some h
  simp only [List.mem_cons, Prod.mk.injEq, List.not_mem_nil, or_false] at hmem
  rcases hmem with ⟨rfl, rfl⟩ | ⟨rfl, rfl⟩ | ⟨rfl, rfl⟩
  · cases k <;> simp [Tree.find, Tree.entries] at hu
  · rcases k with _ | ⟨m, k⟩
    · cases hu
    obtain ⟨v, hmem, hv⟩ := Tree.find_cons_eq_some hu
    obtain ⟨rfl, rfl⟩ := Prod.mk.inj (List.mem_singleton.mp hmem)
    cases k with
    | nil =>
      cases hv
      exact ⟨rfl, rfl, rfl⟩
    | cons => simp [Tree.find, Tree.entries] at hv
  · cases k <;> simp [Tree.find, Tree.entries] at hu

theorem rebuilds_iff_plain : ∃ saved,
    rebuilt .plain {} (.ofTree (Config.STORE_DIR {}) plainStore plainStore_listed) [] = some saved ∧
      Rebuilds .plain {} (.ofTree (Config.STORE_DIR {}) plainStore plainStore_listed) saved := by
  obtain ⟨_, saved, _, hrun, _, hiff⟩ :=
    rebuilds_iff .plain {} (.ofTree (Config.STORE_DIR {}) plainStore plainStore_listed) (.fresh { cwd := [], nodes := ∅ })
  refine ⟨saved, hrun, hiff.mpr (rebuildsWhen_of_plain rfl rfl rfl fun l n x t hfile _ => ?_)⟩
  obtain ⟨hk, rfl, rfl⟩ := plainStore_file hfile
  obtain ⟨rfl, hn⟩ := List.append_inj' hk rfl
  obtain rfl := List.singleton_inj.mp hn
  have hnames : ((walkedPath {} ["a".toList] ++ '/' :: "f".toList).drop ((Config.STORE_DIR {}).length + 1)).splitOn '/' =
      ["a".toList, "f".toList] := by decide +kernel
  refine ⟨by decide +kernel, ?_, by decide +kernel⟩
  exact (Files.ofTree_stat _ (by decide +kernel) (by decide +kernel)).trans (by rw [hnames]; rfl)

def dataConfig : Config := { dockerDir := "/data/".toList }

/-- Two files in a folder below one named as `DOCKER_DIR` is. -/
def dataStore : Tree :=
  .dir [("x".toList, .dir [("data".toList, .dir [("y".toList, .dir
    [("f".toList, .file "one".toList 0), ("g".toList, .file "three".toList 0)])])])]

theorem dataStore_listed : dataStore.Listed :=
  .cons (by decide) (by decide) (.cons (by decide) (by decide) (.cons (by decide) (by decide)
    (.cons (by decide) (by decide) (.file _ _) (.cons (by decide) (by decide) (.file _ _) .nil)) .nil) .nil) .nil

def dataFiles : Files := .ofTree dataConfig.STORE_DIR dataStore dataStore_listed

/-- The path of `g` is rewritten from `files/x/data/y`, which has `/data/` in it, to `files/xy`. -/
theorem a_second_file_is_not_recorded : ∃ saved, rebuilt .plain dataConfig dataFiles [] = some saved ∧
    ¬ Rebuilds .plain dataConfig dataFiles saved := by
  have hrun : (rebuilt .plain dataConfig dataFiles []).map (fun saved => saved.map fun r => r.record.size) = some [3] := by
    decide +kernel
  obtain ⟨saved, hsaved, hsizes⟩ := Option.map_eq_some_iff.mp hrun
  refine ⟨saved, hsaved, fun h => ?_⟩
  obtain ⟨r, hr, _, hsize, _⟩ := h.each dataStore ["x".toList, "data".toList, "y".toList] "g".toList "three".toList 0 rfl rfl
    (by decide) (by decide)
  have hmem := List.mem_map_of_mem (f := fun r : Rebuilt => r.record.size) hr
  rw [hsizes, hsize] at hmem
  exact absurd hmem (by decide)

end GoFastdfs
