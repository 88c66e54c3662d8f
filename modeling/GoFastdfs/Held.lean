/-
  GoFastdfs.Held — a record and the data it stands for.

  The data of a normal record is whatever is at its path; the data of a merged one is an
  extent of the pack at its path, cut at the first comma. A record is held on a disk that
  has its data. A path leads through the locations of its elements (`Disk.way`), so a
  location that is erased matters to the paths that lead through it and to no others.

  Proved: what each change of a disk asks for so that a record stays held: directories
  nothing (`Held.grow`), a file written over that it is long enough (`Held.put`), a file
  that grows nothing (`Held.longer`), an erased location that the record's path does not
  lead through it (`Held.erase`).
-/

import GoFastdfs.Fetch
import GoFastdfs.Upload

namespace GoFastdfs

open Go (Str)

namespace Disk

/-! ## The way to a path -/

def trail : Loc → List Str → List Loc
  | cur, [] => [cur]
  | cur, c :: cs =>
    if c = [] ∨ c = ['.'] then cur :: trail cur cs
    else if c = ['.', '.'] then cur :: trail cur.dropLast cs
    else cur :: trail (cur ++ [c]) cs

def way (d : Disk) (p : Str) : List Loc := trail (d.startOf p) (p.splitOn '/')

@[simp] theorem way_put (d : Disk) (l : Loc) (n : Node) (p : Str) : (d.put l n).way p = d.way p := rfl
@[simp] theorem way_erase (d : Disk) (l : Loc) (p : Str) : (d.erase l).way p = d.way p := rfl

theorem Grow.way {d d' : Disk} (h : Grow d d') (p : Str) : d'.way p = d.way p := by
  simp only [Disk.way, startOf, h.cwd]

theorem node_erase_ne {d : Disk} {l k : Loc} (h : k ≠ l) : (d.erase l).node k = d.node k := by
  unfold node erase
  simp only [Store.get_del_ne _ h]

theorem trail_cons (cur : Loc) (c : Str) (cs : List Str) : trail cur (c :: cs) = cur :: trail (follow cur c) cs := by
  simp only [trail, follow]
  split_ifs <;> rfl

theorem isDir_eq_true {d : Disk} {l : Loc} : d.isDir l = true ↔ d.node l = some .dir := by simp [isDir]

theorem node_of_mem_trail {d : Disk} : ∀ (cs : List Str) (cur l k : Loc), d.walk cur cs = some l → d.node l ≠ none →
    k ∈ trail cur cs → d.node k ≠ none
  | [], cur, l, k, hw, hl, hk => by
    obtain rfl := Option.some.inj hw
    obtain rfl := List.mem_singleton.mp hk
    exact hl
  | c :: cs, cur, l, k, hw, hl, hk => by
    rw [walk_cons] at hw
    rw [trail_cons] at hk
    split at hw
    · rename_i hd
      rcases List.mem_cons.mp hk with rfl | hk
      · simp [isDir_eq_true.mp hd]
      · exact node_of_mem_trail cs _ l k hw hl hk
    · cases hw

theorem walk_mem_trail {d : Disk} : ∀ (cs : List Str) (cur l : Loc), d.walk cur cs = some l → l ∈ trail cur cs
  | [], cur, l, hw => by
    obtain rfl := Option.some.inj hw
    exact List.mem_singleton_self cur
  | c :: cs, cur, l, hw => by
    rw [walk_cons] at hw
    rw [trail_cons]
    split at hw
    · exact List.mem_cons_of_mem _ (walk_mem_trail cs _ l hw)
    · cases hw

theorem walk_eq_of_file {d : Disk} {k : Loc} (hk : d.node k ≠ some .dir) : ∀ (cs : List Str) (cur l : Loc),
    d.walk cur cs = some l → k ∈ trail cur cs → l = k
  | [], cur, l, hw, hm => by
    obtain rfl := Option.some.inj hw
    exact (List.mem_singleton.mp hm).symm
  | c :: cs, cur, l, hw, hm => by
    rw [walk_cons] at hw
    rw [trail_cons] at hm
    split at hw
    · rename_i hd
      have hcur : k ≠ cur := by
        intro e
        subst e
        exact hk (isDir_eq_true.mp hd)
      exact walk_eq_of_file hk cs _ l hw ((List.mem_cons.mp hm).resolve_left hcur)
    · cases hw

theorem walk_erase {d : Disk} {l : Loc} : ∀ (cs : List Str) (cur : Loc), l ∉ trail cur cs →
    (d.erase l).walk cur cs = d.walk cur cs
  | [], _, _ => rfl
  | c :: cs, cur, h => by
    rw [trail_cons, List.mem_cons, not_or] at h
    have hdir : (d.erase l).isDir cur = d.isDir cur := by
      unfold isDir
      rw [node_erase_ne (Ne.symm h.1)]
    rw [walk_cons, walk_cons, hdir, walk_erase cs _ h.2]

theorem mem_way_of_locate {d : Disk} {p : Str} {l : Loc} (h : d.locate p = some l) : l ∈ d.way p := by
  unfold locate at h
  split at h
  · cases h
  · exact walk_mem_trail _ _ _ h

theorem node_of_mem_way {d : Disk} {p : Str} {n : Node} (h : d.stat p = some n) {k : Loc} (hk : k ∈ d.way p) :
    d.node k ≠ none := by
  obtain ⟨l, hl, hn⟩ := stat_eq_some.mp h
  unfold locate at hl
  split at hl
  · cases hl
  · exact node_of_mem_trail _ _ _ _ hl (by simp [hn]) hk

theorem locate_eq_of_file {d : Disk} {p : Str} {k l : Loc} (hk : d.node k ≠ some .dir) (hl : d.locate p = some l)
    (hm : k ∈ d.way p) : d.locate p = some k := by
  rw [hl]
  unfold locate at hl
  split at hl
  · cases hl
  · rw [walk_eq_of_file hk _ _ _ hl hm]

theorem locate_erase_off_way {d : Disk} {p : Str} {l : Loc} (h : l ∉ d.way p) : (d.erase l).locate p = d.locate p := by
  unfold locate
  rw [startOf_erase, walk_erase _ _ h]

theorem stat_erase_off_way {d : Disk} {p : Str} {l : Loc} (h : l ∉ d.way p) : (d.erase l).stat p = d.stat p := by
  unfold stat
  rw [locate_erase_off_way h]
  cases hl : d.locate p with
  | none => rfl
  | some k =>
    have hne : k ≠ l := fun e => h (e ▸ mem_way_of_locate hl)
    exact node_erase_ne hne

/-! ## Removing and renaming -/

theorem remove_eq_some {d d' : Disk} {p : Str} (h : d.remove p = some d') :
    ∃ l, d.locate p = some l ∧ d.node l ≠ none ∧ d' = d.erase l := by
  unfold remove at h
  split at h
  · cases h
  · rename_i l hl
    split at h
    · cases h
    · rename_i data t hn
      exact ⟨l, hl, by simp [hn], (Option.some.inj h).symm⟩
    · rename_i hn
      split at h
      · cases h
      · exact ⟨l, hl, by simp [hn], (Option.some.inj h).symm⟩

theorem placed_or_refused (d : Disk) (p : Str) :
    (∃ l, d.locate p = some l ∧ d.node l ≠ some .dir) ∨ ∀ l, d.locate p = some l → d.node l = some .dir := by
  by_cases h : ∃ l, d.locate p = some l ∧ d.node l ≠ some .dir
  · exact Or.inl h
  · exact Or.inr fun l hl => by_contra fun hdir => h ⟨l, hl, hdir⟩

theorem remove_file {d : Disk} {p : Str} {l : Loc} {data : Str} {t : Int} (hl : d.locate p = some l)
    (hn : d.node l = some (.file data t)) : d.remove p = some (d.erase l) := by simp only [remove, hl, hn]

theorem rename_eq_some {d d' : Disk} {p q : Str} (h : d.rename p q = some d') :
    ∃ l k data t, d.locate p = some l ∧ d.locate q = some k ∧ d.node l = some (.file data t) ∧ d.node k ≠ some .dir ∧
      d' = (d.erase l).put k (.file data t) := by
  unfold rename at h
  split at h
  · rename_i l k hl hk
    split at h
    · cases h
    · rename_i data t hn hdir
      exact ⟨l, k, data, t, hl, hk, hn, hdir, (Option.some.inj h).symm⟩
    · cases h
  · cases h

/-- A file is moved to a place that is no directory. -/
theorem moved_ne_dir {d : Disk} {l k : Loc} (hl : d.node l ≠ some .dir) (hk : d.node k ≠ some .dir) (data : Str) (t : Int) :
    ((d.put l (.file data t)).erase l).node k ≠ some .dir := by
  intro hn
  by_cases e : k = l
  · subst e
    rw [node_erase (ne_root_of_node hl), if_pos rfl] at hn
    cases hn
  · rw [node_erase_ne e, node_put (ne_root_of_node hl), if_neg e] at hn
    exact hk hn

theorem put_ne_dir {d : Disk} {l : Loc} (hl : d.node l ≠ some .dir) (data : Str) (t : Int) :
    (d.put l (.file data t)).node l ≠ some .dir := by
  rw [node_put (ne_root_of_node hl), if_pos rfl]
  simp

theorem rename_fileExists {d d' : Disk} {p q : Str} (h : d.rename p q = some d') : d'.fileExists q = true := by
  obtain ⟨l, k, data, t, _, hk, hn, hkdir, rfl⟩ := rename_eq_some h
  have hl : d.node l ≠ some .dir := by rw [hn]; simp
  have hk' : (d.erase l).node k ≠ some .dir := by
    rw [node_erase (ne_root_of_node hl)]
    split
    · simp
    · exact hkdir
  rw [fileExists, stat_put hk', locate_erase hl, if_pos hk]
  rfl

/-- What can be removed at `p` is not on the way to `q`. -/
def Spares (d : Disk) (p q : Str) : Prop := ∀ l, d.locate p = some l → (d.remove p).isSome = true → l ∉ d.way q

theorem Spares.stat {d : Disk} {p q : Str} (h : d.Spares p q) : ((d.remove p).getD d).stat q = d.stat q := by
  cases hr : d.remove p with
  | none => rfl
  | some d' =>
    obtain ⟨l, hl, _, rfl⟩ := remove_eq_some hr
    exact stat_erase_off_way (h l hl (by rw [hr]; rfl))

theorem Spares.off_way {d : Disk} {p q : Str} (h : d.Spares p q) {l : Loc} (hl : d.locate p = some l)
    (hn : d.node l ≠ some .dir) {n : Node} (hq : d.stat q = some n) : l ∉ d.way q := by
  cases hnode : d.node l with
  | none => exact fun hm => node_of_mem_way hq hm hnode
  | some m =>
    cases m with
    | dir => exact absurd hnode hn
    | file data t => exact h l hl (by rw [remove_file hl hnode]; rfl)

/-! ## Files that grow -/

theorem length_overwrite (old data : Str) (off : Nat) :
    old.length ≤ (overwrite old off data).length ∧ off + data.length ≤ (overwrite old off data).length := by
  unfold overwrite
  simp only [List.length_append, List.length_take, List.length_replicate, List.length_drop]
  omega

end Disk

/-! ## Held records -/

variable (c : Config)

/-- Where the data of a record is: its path, or the pack of a merged file. -/
def dataPath (fi : FileInfo) : Str :=
  if 0 ≤ fi.offSet then Go.splitHead ',' (getFilePathByInfo c fi) else getFilePathByInfo c fi

/-- A merged file's extent, which is not empty, lies in the bytes there. -/
def Fits (fi : FileInfo) : Node → Prop
  | .dir => fi.offSet < 0
  | .file data _ => 0 ≤ fi.offSet → 0 < fi.size ∧ fi.offSet + fi.size ≤ data.length

/-- The data of a record is there: the file at its path, or the extent in its pack. -/
def Held (d : Disk) (fi : FileInfo) : Prop := ∃ n, d.stat (dataPath c fi) = some n ∧ Fits fi n

/-- Two records of one place, the size of a merged file included. -/
structure SamePlace (u v : FileInfo) : Prop where
  md5 : u.md5 = v.md5
  fullpath : u.fullpath = v.fullpath
  offSet : u.offSet = v.offSet
  size : v.size ≠ 0 → u.size = v.size

theorem SamePlace.refl (u : FileInfo) : SamePlace u u := ⟨rfl, rfl, rfl, fun _ => rfl⟩

theorem SamePlace.trans {u v w : FileInfo} (h : SamePlace u v) (h' : SamePlace v w) : SamePlace u w := by
  refine ⟨h.md5.trans h'.md5, h.fullpath.trans h'.fullpath, h.offSet.trans h'.offSet, fun hw => ?_⟩
  have hv := h'.size hw
  rw [h.size (by rw [hv]; exact hw), hv]

theorem samePlace_persist {u : FileInfo} (h : u.Legible) : SamePlace u.persist u := ⟨rfl, h.fullpath, rfl, fun _ => rfl⟩

theorem SamePlace.persist {u v : FileInfo} (h : SamePlace u v) : SamePlace u.persist v.persist :=
  ⟨h.md5, by rw [FileInfo.persist_fullpath, FileInfo.persist_fullpath, h.fullpath], h.offSet, h.size⟩

theorem samePlace_sized (u : FileInfo) (n : Node) : SamePlace (Server.sized u n) u := by
  unfold Server.sized
  split
  · rename_i h
    exact ⟨rfl, rfl, rfl, fun h' => absurd h h'⟩
  · exact .refl u

section
variable {c} {d d' : Disk} {fi : FileInfo}

theorem dataPath_normal (h : fi.offSet < 0) : dataPath c fi = getFilePathByInfo c fi := if_neg (by omega)

theorem SamePlace.dataPath {u v : FileInfo} (h : SamePlace u v) : GoFastdfs.dataPath c u = GoFastdfs.dataPath c v := by
  unfold GoFastdfs.dataPath getFilePathByInfo
  rw [h.offSet, h.fullpath]

/-- Two records of one extent. -/
theorem Held.of_dataPath {u v : FileInfo} (hv : Held c d v) (hpath : GoFastdfs.dataPath c u = GoFastdfs.dataPath c v)
    (hoff : u.offSet = v.offSet) (hsize : v.size ≠ 0 → u.size = v.size) : Held c d u := by
  obtain ⟨n, hn, hfit⟩ := hv
  refine ⟨n, by rw [hpath]; exact hn, ?_⟩
  cases n with
  | dir =>
    have hneg : v.offSet < 0 := hfit
    exact hoff.trans_lt hneg
  | file data t =>
    intro ho
    obtain ⟨hpos, hle⟩ := hfit (hoff ▸ ho)
    rw [hsize (by omega), hoff]
    exact ⟨hpos, hle⟩

theorem SamePlace.held {u v : FileInfo} (h : SamePlace u v) (hv : Held c d v) : Held c d u :=
  hv.of_dataPath h.dataPath h.offSet h.size

theorem held_normal_iff (h : fi.offSet < 0) : Held c d fi ↔ d.fileExists (getFilePathByInfo c fi) = true := by
  unfold Held
  rw [dataPath_normal h, Disk.fileExists, Option.isSome_iff_exists]
  constructor
  · intro hx
    obtain ⟨n, hn, _⟩ := hx
    exact ⟨n, hn⟩
  · intro hx
    obtain ⟨n, hn⟩ := hx
    refine ⟨n, hn, ?_⟩
    cases n with
    | dir => exact h
    | file data t => exact fun ho => absurd h (by omega)

namespace Held

theorem of_stat (h : Held c d fi) (hs : d'.stat (dataPath c fi) = d.stat (dataPath c fi)) : Held c d' fi := by
  unfold Held
  rw [hs]
  exact h

theorem grow (h : Held c d fi) (hg : d.Grow d') : Held c d' fi := by
  obtain ⟨n, hn, hfit⟩ := h
  exact ⟨n, hg.stat hn, hfit⟩

/-- A file written over the data of a merged file has to be long enough. -/
theorem put (h : Held c d fi) {l : Loc} (hl : d.node l ≠ some .dir) {data : Str} {t : Int}
    (hlong : 0 ≤ fi.offSet → d.locate (dataPath c fi) = some l → fi.offSet + fi.size ≤ data.length) :
    Held c (d.put l (.file data t)) fi := by
  obtain ⟨n, hn, hfit⟩ := h
  unfold Held
  rw [Disk.stat_put hl]
  by_cases hloc : d.locate (dataPath c fi) = some l
  · rw [if_pos hloc]
    refine ⟨_, rfl, fun ho => ⟨?_, hlong ho hloc⟩⟩
    cases n with
    | dir =>
      have : fi.offSet < 0 := hfit
      omega
    | file x u => exact (hfit ho).1
  · rw [if_neg hloc]
    exact ⟨n, hn, hfit⟩

theorem longer (h : Held c d fi) {p : Str} {f : Str → Str} {now : Int} (hm : d.modify p f now = some d')
    (hf : ∀ x, x.length ≤ (f x).length) : Held c d' fi := by
  obtain ⟨l, hl, hdir, rfl⟩ := Disk.modify_eq_some.mp hm
  refine h.put hdir fun ho hloc => ?_
  obtain ⟨n, hn, hfit⟩ := h
  obtain ⟨k, hk, hnk⟩ := Disk.stat_eq_some.mp hn
  obtain rfl := Option.some.inj (hk.symm.trans hloc)
  cases n with
  | dir => exact absurd hnk hdir
  | file x u =>
    rw [Disk.read_eq_some.mpr ⟨k, u, hl, hnk⟩]
    have := (hfit ho).2
    have := hf x
    simp only [Option.getD_some]
    omega

theorem append (h : Held c d fi) {p data : Str} {now : Int} (ha : d.append p data now = some d') : Held c d' fi := by
  unfold Disk.append at ha
  split at ha
  · exact h.longer ha fun x => by rw [List.length_append]; omega
  · cases ha

theorem erase (h : Held c d fi) {l : Loc} (hl : l ∉ d.way (dataPath c fi)) : Held c (d.erase l) fi :=
  h.of_stat (Disk.stat_erase_off_way hl)

theorem remove (h : Held c d fi) {p : Str} (hs : d.Spares p (dataPath c fi)) : Held c ((d.remove p).getD d) fi :=
  h.of_stat hs.stat

end Held

end

/-! ## The file of a fetch -/

def fetchDisk (d : Disk) (fi : FileInfo) : Disk := if d.fileExists fi.path then d else d.mkdirAll (c.dockerDir ++ fi.path)

def tmpDisk (d : Disk) (fi : FileInfo) : Disk := withFolder (fetchDisk c d fi) (Go.pathDir (Server.tmpPath c fi))

/-- The disk and the end of the request, which a migrated file and a normal one share. -/
def askFile (d : Disk) (fi : FileInfo) (w : Download) : Disk × FetchEnd :=
  match w.data with
  | none => ((d.remove (Server.tmpPath c fi)).getD d, .requeued)
  | some data =>
    let r := Server.toFile d (Server.tmpPath c fi) data w.now
    if r.2 = false then ((r.1.remove (Server.tmpPath c fi)).getD r.1, .diskError)
    else if (data.length : Int) ≠ fi.size then ((r.1.remove (Server.tmpPath c fi)).getD r.1, .sizeError)
    else
      match r.1.rename (Server.tmpPath c fi) (getFilePathByInfo c fi) with
      | none => (r.1, .diskError)
      | some d => (d, .stored)

/-- Everything the request for a whole file can do to the disk `d`: the temporary file is
    removed, left, or renamed. -/
inductive AskedFor (c : Config) (d : Disk) (fi : FileInfo) (w : Download) : Disk → FetchEnd → Prop
  | unanswered : w.data = none → AskedFor c d fi w ((d.remove (Server.tmpPath c fi)).getD d) .requeued
  | refused (data : Str) (d1 : Disk) : w.data = some data → d1 = withFolder d (Go.pathDir (Server.tmpPath c fi)) →
      AskedFor c d fi w ((d1.remove (Server.tmpPath c fi)).getD d1) .diskError
  | written (data : Str) (d1 d' : Disk) (l : Loc) : w.data = some data →
      d1 = withFolder d (Go.pathDir (Server.tmpPath c fi)) → d1.locate (Server.tmpPath c fi) = some l →
      d1.node l ≠ some .dir → d' = d1.put l (.file data w.now) →
      AskedFor c d fi w ((d'.remove (Server.tmpPath c fi)).getD d') .sizeError
  | left (data : Str) (d1 : Disk) (l : Loc) : w.data = some data →
      d1 = withFolder d (Go.pathDir (Server.tmpPath c fi)) → d1.locate (Server.tmpPath c fi) = some l →
      d1.node l ≠ some .dir → AskedFor c d fi w (d1.put l (.file data w.now)) .diskError
  | stored (data : Str) (d1 d' : Disk) (l k : Loc) : w.data = some data → (data.length : Int) = fi.size →
      d1 = withFolder d (Go.pathDir (Server.tmpPath c fi)) → d1.locate (Server.tmpPath c fi) = some l →
      d1.node l ≠ some .dir → d1.locate (getFilePathByInfo c fi) = some k → d1.node k ≠ some .dir →
      d' = ((d1.put l (.file data w.now)).erase l).put k (.file data w.now) → AskedFor c d fi w d' .stored

section
variable {E : Env} {c : Config}

theorem toFile_cases (d : Disk) (p data : Str) (now : Int) :
    Server.toFile d p data now = (withFolder d (Go.pathDir p), false) ∨
    ∃ l, (withFolder d (Go.pathDir p)).locate p = some l ∧ (withFolder d (Go.pathDir p)).node l ≠ some .dir ∧
      Server.toFile d p data now = ((withFolder d (Go.pathDir p)).put l (.file data now), true) := by
  have hdir : (if d.fileExists (Go.pathDir p) then d else d.mkdirAll (Go.pathDir p)) = withFolder d (Go.pathDir p) := rfl
  unfold Server.toFile
  dsimp only
  rw [hdir]
  cases hc : (withFolder d (Go.pathDir p)).create p data now with
  | none => exact Or.inl rfl
  | some d' =>
    obtain ⟨l, hl, hn, rfl⟩ := Disk.modify_eq_some.mp hc
    exact Or.inr ⟨l, hl, hn, rfl⟩

theorem rename_tmp {d d' : Disk} {p q data : Str} {now : Int} {l : Loc} (hl : d.locate p = some l)
    (hdir : d.node l ≠ some .dir) (h : (d.put l (.file data now)).rename p q = some d') :
    ∃ k, d.locate q = some k ∧ d.node k ≠ some .dir ∧
      d' = ((d.put l (.file data now)).erase l).put k (.file data now) := by
  obtain ⟨l', k, x, t, hl', hk, hn, hkdir, rfl⟩ := Disk.rename_eq_some h
  rw [Disk.locate_put hdir] at hl' hk
  obtain rfl := Option.some.inj (hl.symm.trans hl')
  rw [Disk.node_put (Disk.ne_root_of_node hdir), if_pos rfl] at hn
  cases hn
  refine ⟨k, hk, ?_, rfl⟩
  rw [Disk.node_put (Disk.ne_root_of_node hdir)] at hkdir
  split at hkdir
  · rename_i e
    rw [e]
    exact hdir
  · exact hkdir

theorem downloadNormal_asks (s : Server) (fi : FileInfo) (w : Download) :
    ((s.downloadNormal c fi w).1.disk, (s.downloadNormal c fi w).2) = askFile c s.disk fi w := by
  unfold Server.downloadNormal askFile
  cases w.data with
  | none => rfl
  | some data =>
    dsimp only
    split
    · rfl
    split
    · rfl
    · cases (Server.toFile s.disk (Server.tmpPath c fi) data w.now).1.rename (Server.tmpPath c fi)
        (getFilePathByInfo c fi) <;> rfl

theorem downloadMigrated_asks {s : Server} {fi : FileInfo} (w : Download)
    (hsize : ((s.disk.stat (getFilePathByInfo c fi)).map Node.size) ≠ some fi.size) :
    ((s.downloadMigrated E c fi w).1.disk, (s.downloadMigrated E c fi w).2) = askFile c s.disk fi w := by
  unfold Server.downloadMigrated askFile
  rw [if_neg hsize]
  cases w.data with
  | none => rfl
  | some data =>
    dsimp only
    split
    · rfl
    split
    · rfl
    · cases (Server.toFile s.disk (Server.tmpPath c fi) data w.now).1.rename (Server.tmpPath c fi)
        (getFilePathByInfo c fi) <;> rfl

theorem askFile_cases (d : Disk) (fi : FileInfo) (w : Download) :
    AskedFor c d fi w (askFile c d fi w).1 (askFile c d fi w).2 := by
  unfold askFile
  cases hw : w.data with
  | none => exact .unanswered hw
  | some data =>
    dsimp only
    rcases toFile_cases d (Server.tmpPath c fi) data w.now with ht | ⟨l, hl, hdir, ht⟩
    · rw [ht]
      exact .refused data _ hw rfl
    · rw [ht, if_neg (by simp)]
      split
      · exact .written data _ _ l hw rfl hl hdir rfl
      · rename_i hsize
        split
        · exact .left data _ l hw rfl hl hdir
        · rename_i d hd
          obtain ⟨k, hk, hkdir, rfl⟩ := rename_tmp hl hdir hd
          exact .stored data _ _ l k hw (not_not.mp hsize) rfl hl hdir hk hkdir rfl

theorem AskedFor.stat_stored {d d' : Disk} {fi : FileInfo} {w : Download} (h : AskedFor c d fi w d' .stored) :
    ∃ data k, w.data = some data ∧ (data.length : Int) = fi.size ∧
      (withFolder d (Go.pathDir (Server.tmpPath c fi))).locate (getFilePathByInfo c fi) = some k ∧
      ∀ q, (withFolder d (Go.pathDir (Server.tmpPath c fi))).locate q = some k → d'.stat q = some (.file data w.now) := by
  cases h with
  | stored data d1 d2 l k hw hsize hd1 hl hdir hk hkdir hd2 =>
    subst hd1 hd2
    refine ⟨data, k, hw, hsize, hk, fun q hq => ?_⟩
    rw [Disk.stat_put (Disk.moved_ne_dir hdir hkdir _ _), Disk.locate_erase (Disk.put_ne_dir hdir _ _),
      Disk.locate_put hdir, if_pos hq]

theorem fetchDisk_grow (d : Disk) (fi : FileInfo) : d.Grow (fetchDisk c d fi) := by
  unfold fetchDisk
  split
  · exact .refl d
  · exact d.mkdirAll_grow _

def asking (c : Config) (s : Server) (fi : FileInfo) (w : Download) : Server :=
  { s with
    disk := fetchDisk c s.disk fi
    ldb := s.ldb.put (Server.downloadKey w.start (getFilePathByInfo c fi)) .empty }

theorem downloadRequest_disk (s : Server) (fi : FileInfo) (w : Download) :
    (s.downloadRequest E c fi w).1.disk =
      (if fi.offSet = -2 then Server.downloadMigrated E c (asking c s fi w) fi w
        else if 0 ≤ fi.offSet then Server.downloadSmall c (asking c s fi w) fi w
        else Server.downloadNormal c (asking c s fi w) fi w).1.disk := rfl

end

end GoFastdfs
