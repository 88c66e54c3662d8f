/-
  GoFastdfs.Disk — a file system without symbolic links.

  A location is the list of names from the root; a path is walked from the root or from
  the working directory, every element but the last through a directory that exists
  (`walk`), so `a//b`, `a/./b` and `a/c/../b` may name one location. What a change does
  to later lookups is said once: a file written or erased leaves every path where it
  was (`locate_put`, `locate_erase`), so a lookup changes at that location alone
  (`stat_put`, `stat_erase`); directories made on the way only add paths (`Grow`).
-/

import GoFastdfs.Store
import GoFastdfs.Go.Text

namespace GoFastdfs

open Go (Str)

abbrev Loc := List Str

inductive Node where
  | dir
  | file (data : Str) (mtime : Int)
  deriving DecidableEq, Repr

/-- `FileInfo.Size`; of a directory, what the file system takes for it. -/
def Node.size : Node → Int
  | .dir => 4096
  | .file data _ => data.length

/-- `FileInfo.ModTime`; of a directory, a time of the file system's. -/
def Node.modTime (dirTime : Int) : Node → Int
  | .dir => dirTime
  | .file _ mtime => mtime

structure Disk where
  cwd : Loc
  nodes : Store Loc Node

namespace Disk

/-- The root is a directory whatever the table says. -/
def node (d : Disk) (l : Loc) : Option Node := if l = [] then some .dir else d.nodes.get l

def isDir (d : Disk) (l : Loc) : Bool := d.node l == some .dir

def walk (d : Disk) : Loc → List Str → Option Loc
  | cur, [] => some cur
  | cur, c :: cs =>
    if d.isDir cur then
      if c = [] ∨ c = ['.'] then walk d cur cs
      else if c = ['.', '.'] then walk d cur.dropLast cs
      else walk d (cur ++ [c]) cs
    else none

def startOf (d : Disk) (p : Str) : Loc := if p.head? = some '/' then [] else d.cwd

def locate (d : Disk) (p : Str) : Option Loc :=
  if p = [] then none else d.walk (d.startOf p) (p.splitOn '/')

def stat (d : Disk) (p : Str) : Option Node := (d.locate p).bind d.node

def fileExists (d : Disk) (p : Str) : Bool := (d.stat p).isSome

def read (d : Disk) (p : Str) : Option Str :=
  match d.stat p with
  | some (.file data _) => some data
  | _ => none

def put (d : Disk) (l : Loc) (n : Node) : Disk := { d with nodes := d.nodes.put l n }

def erase (d : Disk) (l : Loc) : Disk := { d with nodes := d.nodes.del l }

/-- The walk of `os.MkdirAll`; it stops at a regular file. -/
def mkdirs (d : Disk) : Loc → List Str → Disk
  | _, [] => d
  | cur, c :: cs =>
    if c = [] ∨ c = ['.'] then mkdirs d cur cs
    else if c = ['.', '.'] then mkdirs d cur.dropLast cs
    else
      match d.node (cur ++ [c]) with
      | none => mkdirs (d.put (cur ++ [c]) .dir) (cur ++ [c]) cs
      | some .dir => mkdirs d (cur ++ [c]) cs
      | some (.file _ _) => d

def mkdirAll (d : Disk) (p : Str) : Disk := d.mkdirs (d.startOf p) (p.splitOn '/')

/-- The regular file at `p`, or its absence, replaced by `f` of its bytes; an error at a
    directory or where the path does not lead anywhere. -/
def modify (d : Disk) (p : Str) (f : Str → Str) (now : Int) : Option Disk :=
  match d.locate p with
  | none => none
  | some l =>
    match d.node l with
    | some .dir => none
    | some (.file data _) => some (d.put l (.file (f data) now))
    | none => some (d.put l (.file (f []) now))

/-- `os.Create` followed by writing `data`. -/
def create (d : Disk) (p : Str) (data : Str) (now : Int) : Option Disk := d.modify p (fun _ => data) now

/-- Writing at the end of the file; a file that would outgrow `int64` is an error. -/
def append (d : Disk) (p : Str) (data : Str) (now : Int) : Option Disk :=
  if ((d.read p).getD [] ++ data).length < 2 ^ 63 then d.modify p (· ++ data) now else none

/-- `data` over `old` from `off` on; a gap past the end of `old` is zero bytes. -/
def overwrite (old : Str) (off : Nat) (data : Str) : Str :=
  (old ++ List.replicate (off - old.length) '\x00').take off ++ data ++ old.drop (off + data.length)

def writeAt (d : Disk) (p : Str) (off : Nat) (data : Str) (now : Int) : Option Disk :=
  d.modify p (overwrite · off data) now

def slice (data : Str) (off n : Nat) : Option Str :=
  if n = 0 then some [] else if off + n ≤ data.length then some ((data.drop off).take n) else none

/-- `os.Remove`: a file, or a directory with nothing below it. -/
def remove (d : Disk) (p : Str) : Option Disk :=
  match d.locate p with
  | none => none
  | some l =>
    match d.node l with
    | none => none
    | some (.file _ _) => some (d.erase l)
    | some .dir => if l = [] ∨ d.nodes.keys.any (fun k => l.isPrefixOf k && k != l) then none else some (d.erase l)

/-- `os.Rename` of a regular file; a directory in the way is an error. -/
def rename (d : Disk) (p q : Str) : Option Disk :=
  match d.locate p, d.locate q with
  | some l, some k =>
    match d.node l, d.node k with
    | some (.file _ _), some .dir => none
    | some (.file data t), _ => some ((d.erase l).put k (.file data t))
    | _, _ => none
  | _, _ => none

def ofFiles (fs : List (Str × Str)) : Disk :=
  fs.foldl (fun d f => ((d.mkdirAll (Go.pathDir f.1)).create f.1 f.2 0).getD d) { cwd := [], nodes := ∅ }

/-! ## Lookups -/

@[simp] theorem node_root (d : Disk) : d.node [] = some .dir := rfl

theorem ne_root_of_node {d : Disk} {l : Loc} (h : d.node l ≠ some .dir) : l ≠ [] := by
  rintro rfl; exact h rfl

@[simp] theorem cwd_put (d : Disk) (l : Loc) (n : Node) : (d.put l n).cwd = d.cwd := rfl
@[simp] theorem cwd_erase (d : Disk) (l : Loc) : (d.erase l).cwd = d.cwd := rfl
@[simp] theorem startOf_put (d : Disk) (l : Loc) (n : Node) (p : Str) : (d.put l n).startOf p = d.startOf p := rfl
@[simp] theorem startOf_erase (d : Disk) (l : Loc) (p : Str) : (d.erase l).startOf p = d.startOf p := rfl

theorem node_put {d : Disk} {l : Loc} (h : l ≠ []) (n : Node) (k : Loc) :
    (d.put l n).node k = if k = l then some n else d.node k := by
  by_cases hk : k = []
  · subst hk; simp [Ne.symm h]
  · simp [node, hk, put, Store.get_put]

theorem node_erase {d : Disk} {l : Loc} (h : l ≠ []) (k : Loc) :
    (d.erase l).node k = if k = l then none else d.node k := by
  by_cases hk : k = []
  · subst hk; simp [Ne.symm h]
  · simp [node, hk, erase, Store.get_del]

theorem stat_eq_some {d : Disk} {p : Str} {n : Node} : d.stat p = some n ↔ ∃ l, d.locate p = some l ∧ d.node l = some n :=
  Option.bind_eq_some_iff

theorem read_eq_some {d : Disk} {p : Str} {data : Str} :
    d.read p = some data ↔ ∃ l t, d.locate p = some l ∧ d.node l = some (.file data t) := by
  unfold read
  constructor
  · intro h
    split at h
    · rename_i data' t hs
      cases h
      obtain ⟨l, hl, hn⟩ := stat_eq_some.mp hs
      exact ⟨l, t, hl, hn⟩
    · cases h
  · intro hx
    obtain ⟨l, t, hl, hn⟩ := hx
    rw [stat_eq_some.mpr ⟨l, hl, hn⟩]

theorem fileExists_iff {d : Disk} {p : Str} : d.fileExists p = true ↔ ∃ l n, d.locate p = some l ∧ d.node l = some n := by
  simp only [fileExists, Option.isSome_iff_exists, stat_eq_some]
  exact exists_comm

theorem fileExists_of_read {d : Disk} {p data : Str} (h : d.read p = some data) : d.fileExists p = true := by
  obtain ⟨l, t, hl, hn⟩ := read_eq_some.mp h
  exact fileExists_iff.mpr ⟨l, _, hl, hn⟩

theorem not_fileExists {d : Disk} {p : Str} {l : Loc} (hl : d.locate p = some l) (h : d.fileExists p = false) :
    d.node l = none := by
  cases hn : d.node l with
  | none => rfl
  | some n =>
    have := fileExists_iff.mpr ⟨l, n, hl, hn⟩
    rw [h] at this; cases this

/-! ## What a change does to paths -/

def follow (cur : Loc) (c : Str) : Loc :=
  if c = [] ∨ c = ['.'] then cur else if c = ['.', '.'] then cur.dropLast else cur ++ [c]

theorem walk_cons (d : Disk) (cur : Loc) (c : Str) (cs : List Str) :
    d.walk cur (c :: cs) = if d.isDir cur then d.walk (follow cur c) cs else none := by
  simp only [walk, follow]
  split_ifs <;> rfl

theorem walk_congr {d d' : Disk} (h : ∀ l, d'.isDir l = d.isDir l) : ∀ (cs : List Str) (cur : Loc),
    d'.walk cur cs = d.walk cur cs
  | [], _ => rfl
  | c :: cs, cur => by
    simp only [walk, h, walk_congr h cs]

theorem walk_mono {d d' : Disk} (h : ∀ l, d.isDir l = true → d'.isDir l = true) :
    ∀ (cs : List Str) (cur l : Loc), d.walk cur cs = some l → d'.walk cur cs = some l
  | [], _, _, hw => hw
  | c :: cs, cur, l, hw => by
    rw [walk_cons] at hw ⊢
    split at hw
    · rename_i hd
      rw [if_pos (h cur hd)]
      exact walk_mono h cs _ l hw
    · cases hw

theorem locate_congr {d d' : Disk} (hc : d'.cwd = d.cwd) (h : ∀ l, d'.isDir l = d.isDir l) (p : Str) :
    d'.locate p = d.locate p := by
  simp only [locate, startOf, hc, walk_congr h]

theorem isDir_put {d : Disk} {l : Loc} (h : d.node l ≠ some .dir) (data : Str) (t : Int) (k : Loc) :
    (d.put l (.file data t)).isDir k = d.isDir k := by
  unfold isDir
  rw [node_put (ne_root_of_node h)]
  split
  · rename_i e; subst e
    have : (d.node k == some .dir) = false := beq_eq_false_iff_ne.mpr h
    rw [this]; rfl
  · rfl

theorem isDir_erase {d : Disk} {l : Loc} (h : d.node l ≠ some .dir) (k : Loc) : (d.erase l).isDir k = d.isDir k := by
  unfold isDir
  rw [node_erase (ne_root_of_node h)]
  split
  · rename_i e; subst e
    have : (d.node k == some .dir) = false := beq_eq_false_iff_ne.mpr h
    rw [this]; rfl
  · rfl

section
variable {d : Disk} {l : Loc} (h : d.node l ≠ some .dir)
include h

theorem locate_put (data : Str) (t : Int) (p : Str) : (d.put l (.file data t)).locate p = d.locate p :=
  locate_congr (cwd_put d l _) (isDir_put h data t) p

theorem locate_erase (p : Str) : (d.erase l).locate p = d.locate p :=
  locate_congr (cwd_erase d l) (isDir_erase h) p

theorem stat_put (data : Str) (t : Int) (p : Str) :
    (d.put l (.file data t)).stat p = if d.locate p = some l then some (.file data t) else d.stat p := by
  unfold stat
  rw [locate_put h]
  cases d.locate p with
  | none => simp
  | some k => simp only [Option.bind_some, node_put (ne_root_of_node h), Option.some.injEq]

theorem stat_erase (p : Str) : (d.erase l).stat p = if d.locate p = some l then none else d.stat p := by
  unfold stat
  rw [locate_erase h]
  cases d.locate p with
  | none => simp
  | some k => simp only [Option.bind_some, node_erase (ne_root_of_node h), Option.some.injEq]

theorem read_put (data : Str) (t : Int) (p : Str) :
    (d.put l (.file data t)).read p = if d.locate p = some l then some data else d.read p := by
  unfold read
  rw [stat_put h]
  split_ifs <;> rfl

theorem read_erase (p : Str) : (d.erase l).read p = if d.locate p = some l then none else d.read p := by
  unfold read
  rw [stat_erase h]
  split_ifs <;> rfl

end

/-! ## Growing disks -/

/-- Everything on `d` is still there, unchanged, on `d'`. -/
structure Grow (d d' : Disk) : Prop where
  cwd : d'.cwd = d.cwd
  keeps : ∀ l n, d.node l = some n → d'.node l = some n

namespace Grow

theorem refl (d : Disk) : Grow d d := ⟨rfl, fun _ _ h => h⟩

theorem trans {a b c : Disk} (h : Grow a b) (h' : Grow b c) : Grow a c :=
  ⟨h'.cwd.trans h.cwd, fun l n hn => h'.keeps l n (h.keeps l n hn)⟩

theorem put_new {d : Disk} {l : Loc} (h : d.node l = none) (n : Node) : Grow d (d.put l n) := by
  have hr : l ≠ [] := by rintro rfl; cases h
  refine ⟨rfl, fun k m hm => ?_⟩
  rw [node_put hr]
  split
  · rename_i e; subst e; rw [h] at hm; cases hm
  · exact hm

theorem isDir {d d' : Disk} (h : Grow d d') (l : Loc) (hl : d.isDir l = true) : d'.isDir l = true := by
  have : d.node l = some .dir := by simpa [Disk.isDir] using hl
  simp [Disk.isDir, h.keeps l _ this]

theorem locate {d d' : Disk} (h : Grow d d') {p : Str} {l : Loc} (hl : d.locate p = some l) : d'.locate p = some l := by
  unfold Disk.locate at hl ⊢
  split at hl
  · cases hl
  · rename_i hp
    rw [if_neg hp]
    have : d'.startOf p = d.startOf p := by simp [startOf, h.cwd]
    rw [this]
    exact walk_mono h.isDir _ _ _ hl

theorem stat {d d' : Disk} (h : Grow d d') {p : Str} {n : Node} (hn : d.stat p = some n) : d'.stat p = some n := by
  obtain ⟨l, hl, hn⟩ := stat_eq_some.mp hn
  exact stat_eq_some.mpr ⟨l, h.locate hl, h.keeps l n hn⟩

theorem read {d d' : Disk} (h : Grow d d') {p data : Str} (hr : d.read p = some data) : d'.read p = some data := by
  obtain ⟨l, t, hl, hn⟩ := read_eq_some.mp hr
  exact read_eq_some.mpr ⟨l, t, h.locate hl, h.keeps l _ hn⟩

theorem fileExists {d d' : Disk} (h : Grow d d') {p : Str} (hp : d.fileExists p = true) : d'.fileExists p = true := by
  obtain ⟨l, n, hl, hn⟩ := fileExists_iff.mp hp
  exact fileExists_iff.mpr ⟨l, n, h.locate hl, h.keeps l n hn⟩

end Grow

theorem mkdirs_grow : ∀ (cs : List Str) (d : Disk) (cur : Loc), Grow d (d.mkdirs cur cs)
  | [], d, _ => .refl d
  | c :: cs, d, cur => by
    simp only [mkdirs]
    split
    · exact mkdirs_grow cs d cur
    · split
      · exact mkdirs_grow cs d _
      · split
        · rename_i hn
          exact (Grow.put_new hn .dir).trans (mkdirs_grow cs _ _)
        · exact mkdirs_grow cs d _
        · exact .refl d

structure DirGrow (ok : Str → Prop) (d d' : Disk) : Prop extends Grow d d' where
  only : ∀ l n, d'.node l = some n → d.node l = some n ∨ n = .dir ∧ ∃ k x, l = k ++ [x] ∧ ok x

namespace DirGrow

variable {ok : Str → Prop}

theorem refl (d : Disk) : DirGrow ok d d := ⟨.refl d, fun _ _ h => Or.inl h⟩

theorem trans {a b c : Disk} (h : DirGrow ok a b) (h' : DirGrow ok b c) : DirGrow ok a c :=
  ⟨h.toGrow.trans h'.toGrow, fun l n hn => (h'.only l n hn).elim (h.only l n) Or.inr⟩

theorem file {d d' : Disk} (h : DirGrow ok d d') {l : Loc} {data : Str} {t : Int} (hn : d'.node l = some (.file data t)) :
    d.node l = some (.file data t) := by
  rcases h.only l _ hn with h | ⟨h, _⟩
  · exact h
  · cases h

theorem no_file {d d' : Disk} (h : DirGrow ok d d') {p : Str} {l : Loc} (hl : d.locate p = some l)
    (hn : ∀ x t, d.node l ≠ some (.file x t)) (x : Str) (t : Int) : d'.stat p ≠ some (.file x t) := by
  intro hstat
  obtain ⟨k, hk, hnode⟩ := stat_eq_some.mp hstat
  obtain rfl := Option.some.inj ((h.toGrow.locate hl).symm.trans hk)
  exact hn x t (h.file hnode)

end DirGrow

theorem mkdirs_dirGrow {ok : Str → Prop} : ∀ (cs : List Str), (∀ c ∈ cs, ok c) → ∀ (d : Disk) (cur : Loc),
    DirGrow ok d (d.mkdirs cur cs)
  | [], _, d, _ => .refl d
  | c :: cs, h, d, cur => by
    have ih := mkdirs_dirGrow cs fun x hx => h x (List.mem_cons_of_mem _ hx)
    simp only [mkdirs]
    split
    · exact ih d cur
    · split
      · exact ih d _
      · split
        · rename_i hn
          refine DirGrow.trans ⟨Grow.put_new hn .dir, fun l n hl => ?_⟩ (ih _ _)
          rw [node_put (by simp)] at hl
          split at hl
          · rename_i e
            exact Or.inr ⟨(Option.some.inj hl).symm, cur, c, e, h c List.mem_cons_self⟩
          · exact Or.inl hl
        · exact ih d _
        · exact .refl d

theorem mkdirAll_grow (d : Disk) (p : Str) : Grow d (d.mkdirAll p) := mkdirs_grow _ d _

/-! ## Changing one file -/

/-- What changing a file does: it happens at a location that is no directory, to the bytes
    that are read there. -/
theorem modify_eq_some {d d' : Disk} {p : Str} {f : Str → Str} {now : Int} :
    d.modify p f now = some d' ↔ ∃ l, d.locate p = some l ∧ d.node l ≠ some .dir ∧
      d' = d.put l (.file (f ((d.read p).getD [])) now) := by
  cases hl : d.locate p with
  | none => simp [modify, hl]
  | some l =>
    have hs : d.stat p = d.node l := by simp [stat, hl]
    cases hn : d.node l with
    | none => simp [modify, read, hs, hl, hn, eq_comm]
    | some n => cases n <;> simp [modify, read, hs, hl, hn, eq_comm]

/-- A file made at a free path: everything else stays, and it reads back. -/
theorem create_new {d d' : Disk} {p data : Str} {now : Int} (hf : d.fileExists p = false)
    (h : d.create p data now = some d') :
    ∃ l, d.locate p = some l ∧ d.node l = none ∧ d' = d.put l (.file data now) := by
  obtain ⟨l, hl, _, rfl⟩ := modify_eq_some.mp h
  exact ⟨l, hl, not_fileExists hl hf, rfl⟩

/-- What appending does: the bytes after those that were there, and every path where it was. -/
theorem append_eq_some {d d' : Disk} {p data : Str} {now : Int} (h : d.append p data now = some d') :
    ∃ l, d.locate p = some l ∧ d.node l ≠ some .dir ∧ d' = d.put l (.file ((d.read p).getD [] ++ data) now) ∧
      ((d.read p).getD [] ++ data).length < 2 ^ 63 := by
  unfold append at h
  split at h
  · rename_i hlen
    obtain ⟨l, hl, hn, rfl⟩ := modify_eq_some.mp h
    exact ⟨l, hl, hn, rfl, hlen⟩
  · cases h

theorem locate_append {d d' : Disk} {p data : Str} {now : Int} (h : d.append p data now = some d') (q : Str) :
    d'.locate q = d.locate q := by
  obtain ⟨l, _, hn, rfl, _⟩ := append_eq_some h
  exact locate_put hn _ _ q

theorem read_append {d d' : Disk} {p data : Str} {now : Int} (h : d.append p data now = some d') :
    d'.read p = some ((d.read p).getD [] ++ data) := by
  obtain ⟨l, hl, hn, rfl, _⟩ := append_eq_some h
  rw [read_put hn, if_pos hl]

/-- No file loses a byte by an append. -/
theorem append_keeps {d d' : Disk} {p data q x : Str} {now : Int} (h : d.append p data now = some d')
    (hq : d.read q = some x) : ∃ tail, d'.read q = some (x ++ tail) := by
  obtain ⟨l, hl, hn, rfl, _⟩ := append_eq_some h
  rw [read_put hn]
  split
  · rename_i hql
    have hp : d.read p = some x := by
      obtain ⟨k, t, hk, hkn⟩ := read_eq_some.mp hq
      rw [hql] at hk
      obtain rfl := Option.some.inj hk
      exact read_eq_some.mpr ⟨l, t, hl, hkn⟩
    exact ⟨data, by rw [hp]; rfl⟩
  · exact ⟨[], by rw [hq, List.append_nil]⟩

theorem read_append_of_ne {d d' : Disk} {p data q : Str} {now : Int} (h : d.append p data now = some d')
    (hq : ∀ l, d.locate q = some l → d.locate p ≠ some l) : d'.read q = d.read q := by
  obtain ⟨l, hl, hn, rfl, _⟩ := append_eq_some h
  rw [read_put hn, if_neg fun hql => hq l hql hl]

theorem read_remove {d : Disk} {p x q : Str} (hx : d.read p = some x)
    (hq : ∀ l, d.locate p = some l → d.locate q ≠ some l) : ((d.remove p).getD d).read q = d.read q := by
  obtain ⟨l, t, hl, hn⟩ := read_eq_some.mp hx
  have : d.remove p = some (d.erase l) := by simp only [remove, hl, hn]
  rw [this, Option.getD_some, read_erase (by rw [hn]; simp), if_neg (hq l hl)]

/-! ## Pieces of a file -/

theorem le_of_slice {x b : Str} {off n : Nat} (hn : n ≠ 0) (h : slice x off n = some b) : off + n ≤ x.length := by
  unfold slice at h
  rw [if_neg hn] at h
  split at h
  · assumption
  · cases h

theorem slice_append {x b : Str} {off n : Nat} (h : slice x off n = some b) (tail : Str) :
    slice (x ++ tail) off n = some b := by
  unfold slice at h ⊢
  split at h
  · rename_i hn; rw [if_pos hn, ← h]
  · rename_i hn
    rw [if_neg hn]
    split at h
    · rename_i hle
      rw [if_pos (by rw [List.length_append]; omega), List.drop_append_of_le_length (by omega),
        List.take_append_of_le_length (by rw [List.length_drop]; omega), ← h]
    · cases h

theorem slice_at_end (x b : Str) : slice (x ++ b) x.length b.length = some b := by
  unfold slice
  split
  · rename_i hb
    rw [List.length_eq_zero_iff.mp hb]
  · rw [if_pos (by rw [List.length_append]), List.drop_left, List.take_length]

theorem slice_eq_some {x b : Str} {off n : Nat} (hn : n ≠ 0) :
    slice x off n = some b ↔ b.length = n ∧ ∀ i < n, x[off + i]? = b[i]? := by
  unfold slice
  rw [if_neg hn]
  constructor
  · intro h
    split at h
    · rename_i hle
      obtain rfl := Option.some.inj h
      refine ⟨by rw [List.length_take, List.length_drop]; omega, fun i hi => ?_⟩
      rw [List.getElem?_take_of_lt hi, List.getElem?_drop]
    · cases h
  · intro hx
    obtain ⟨hlen, hb⟩ := hx
    have hlast : x[off + (n - 1)]? ≠ none := by
      rw [hb (n - 1) (by omega)]
      exact List.getElem?_eq_none_iff.not.mpr (by omega)
    have hle : off + n ≤ x.length := by
      have := List.getElem?_eq_none_iff.not.mp hlast
      omega
    rw [if_pos hle]
    refine congrArg some (List.ext_getElem? fun i => ?_)
    by_cases hi : i < n
    · rw [List.getElem?_take_of_lt hi, List.getElem?_drop, hb i hi]
    · rw [List.getElem?_eq_none (by rw [List.length_take, List.length_drop]; omega), List.getElem?_eq_none (by omega)]

theorem overwrite_inside (old data : Str) (off : Nat) {i : Nat} (hi : i < data.length) :
    (overwrite old off data)[off + i]? = data[i]? := by
  have hlen : ((old ++ List.replicate (off - old.length) '\x00').take off).length = off := by
    rw [List.length_take, List.length_append, List.length_replicate]; omega
  unfold overwrite
  rw [List.append_assoc, List.getElem?_append_right (by omega), hlen, Nat.add_sub_cancel_left,
    List.getElem?_append_left hi]

/-- Outside of what is written there is what was there, or a hole. -/
theorem overwrite_outside (old data : Str) (off : Nat) {i : Nat} (hi : i < off ∨ off + data.length ≤ i) :
    (overwrite old off data)[i]? = old[i]? ∨ old[i]? = none ∧ (overwrite old off data)[i]? = some '\x00' := by
  have hlen : ((old ++ List.replicate (off - old.length) '\x00').take off).length = off := by
    rw [List.length_take, List.length_append, List.length_replicate]; omega
  unfold overwrite
  rcases hi with hi | hi
  · rw [List.append_assoc, List.getElem?_append_left (by omega), List.getElem?_take_of_lt hi]
    by_cases ho : i < old.length
    · exact Or.inl (List.getElem?_append_left ho)
    · refine Or.inr ⟨List.getElem?_eq_none (by omega), ?_⟩
      rw [List.getElem?_append_right (by omega), List.getElem?_replicate, if_pos (by omega)]
  · refine Or.inl ?_
    rw [List.getElem?_append_right (by rw [List.length_append]; omega), List.length_append, hlen, List.getElem?_drop]
    congr 1; omega

/-! ## The last name of a path -/

theorem walk_append (d : Disk) : ∀ (cs : List Str) (cur : Loc) (cs' : List Str),
    d.walk cur (cs ++ cs') = (d.walk cur cs).bind fun l => d.walk l cs'
  | [], cur, cs' => rfl
  | c :: cs, cur, cs' => by
    rw [List.cons_append, walk_cons, walk_cons, walk_append d cs]
    split <;> rfl

theorem walk_empty (d : Disk) (cur : Loc) {cs : List Str} (h : cs ≠ []) : d.walk cur ([] :: cs) = d.walk cur cs := by
  obtain ⟨c, cs, rfl⟩ := List.exists_cons_of_ne_nil h
  rw [walk_cons, follow, if_pos (Or.inl rfl)]
  split
  · rfl
  · rename_i hdir
    rw [walk_cons, if_neg hdir]

theorem locate_slashes (d : Disk) (p q : Str) : d.locate (p ++ '/' :: '/' :: q) = d.locate (p ++ '/' :: q) := by
  have hstart : d.startOf (p ++ '/' :: '/' :: q) = d.startOf (p ++ '/' :: q) := by
    cases p <;> rfl
  unfold locate
  rw [if_neg (by simp), if_neg (by simp), hstart, List.splitOn_append_cons_self, List.splitOn_append_cons_self,
    show ('/' :: q).splitOn '/' = [] :: q.splitOn '/' from List.splitOn_append_cons_self [] q, walk_append, walk_append]
  simp only [walk_empty d _ (List.splitOn_ne_nil _ _)]

theorem locate_rdropWhile_slash (d : Disk) (p x : Str) (q : Str) :
    d.locate (p ++ q.rdropWhile (· == '/') ++ '/' :: x) = d.locate (p ++ q ++ '/' :: x) := by
  induction q using List.reverseRecOn with
  | nil => rfl
  | append_singleton q a ih =>
    by_cases ha : a = '/'
    · subst ha
      rw [List.rdropWhile_concat_pos _ _ _ (by rfl), ih, ← locate_slashes]
      simp only [List.append_assoc, List.singleton_append]
    · rw [List.rdropWhile_concat_neg _ _ _ (by simpa using ha)]

/-- A name that stands for an entry of its directory. -/
structure IsEntry (x : Str) : Prop where
  slash : '/' ∉ x
  nonempty : x ≠ []
  dot : x ≠ ['.']
  dotdot : x ≠ ['.', '.']

theorem locate_child {d : Disk} {p x : Str} (hp : p ≠ []) (hx : IsEntry x) :
    d.locate (p ++ '/' :: x) = (d.locate p).bind fun l => if d.isDir l then some (l ++ [x]) else none := by
  have hstart : d.startOf (p ++ '/' :: x) = d.startOf p := by
    simp only [startOf]
    cases p with
    | nil => exact absurd rfl hp
    | cons c p => rfl
  unfold locate
  rw [if_neg (by simp), if_neg hp, hstart, List.splitOn_append_cons_self, List.splitOn_eq_singleton hx.slash, walk_append]
  congr 1
  funext l
  simp [walk, hx.nonempty, hx.dot, hx.dotdot]

/-- Two names in one directory are two locations. -/
theorem locate_child_ne {d : Disk} {p x y : Str} (hp : p ≠ []) (hx : IsEntry x) (hy : IsEntry y) (hne : x ≠ y) {l : Loc}
    (hl : d.locate (p ++ '/' :: x) = some l) : d.locate (p ++ '/' :: y) ≠ some l := by
  intro hl'
  rw [locate_child hp hx] at hl
  rw [locate_child hp hy] at hl'
  obtain ⟨k, hk, hkl⟩ := Option.bind_eq_some_iff.mp hl
  obtain ⟨k', hk', hkl'⟩ := Option.bind_eq_some_iff.mp hl'
  rw [hk] at hk'
  obtain rfl := Option.some.inj hk'
  split at hkl
  · rename_i hd
    rw [if_pos hd] at hkl'
    rw [← Option.some.inj hkl'] at hkl
    exact hne (List.cons.inj (List.append_cancel_left (Option.some.inj hkl))).1
  · cases hkl

def entriesBelow (d : Disk) (l : Loc) : List (Str × Node) :=
  (d.nodes.scan fun k => k ≠ [] && k.dropLast == l).map fun e => (e.1.getLast?.getD [], e.2)

def readDir (d : Disk) (p : Str) : Option (List (Str × Node)) :=
  (d.locate p).bind fun l => if d.isDir l then some (d.entriesBelow l) else none

theorem readDir_eq_some {d : Disk} {p : Str} {es : List (Str × Node)} :
    d.readDir p = some es ↔ ∃ l, d.locate p = some l ∧ d.isDir l = true ∧ d.entriesBelow l = es := by
  simp only [readDir, Option.bind_eq_some_iff, Option.ite_none_right_eq_some, Option.some.injEq]

theorem eq_of_dropLast {k l : Loc} (h : (k ≠ [] && k.dropLast == l) = true) : k = l ++ [k.getLast?.getD []] := by
  rw [Bool.and_eq_true, decide_eq_true_eq, beq_iff_eq] at h
  obtain ⟨hne, rfl⟩ := h
  rw [List.getLast?_eq_some_getLast hne, Option.getD_some, List.dropLast_concat_getLast]

theorem mem_entriesBelow {d : Disk} {l : Loc} {n : Str} {x : Node} :
    (n, x) ∈ d.entriesBelow l ↔ d.node (l ++ [n]) = some x := by
  have hnode : d.node (l ++ [n]) = d.nodes.get (l ++ [n]) := if_neg (by simp)
  rw [hnode, entriesBelow, List.mem_map]
  constructor
  · intro h
    obtain ⟨e, he, heq⟩ := h
    obtain ⟨hget, hk⟩ := Store.mem_scan.mp he
    obtain ⟨rfl, rfl⟩ := Prod.mk.inj heq
    rw [← eq_of_dropLast hk]
    exact hget
  · intro hget
    exact ⟨(l ++ [n], x), Store.mem_scan.mpr ⟨hget, by simp⟩, by simp⟩

theorem append_lt_append_left (l : Loc) {a b : Str} : l ++ [a] < l ++ [b] ↔ a < b := by
  induction l with
  | nil => simp [List.cons_lt_cons_iff]
  | cons x l ih => simp [ih]

theorem entriesBelow_sorted (d : Disk) (l : Loc) : (d.entriesBelow l).Pairwise fun a b => a.1 < b.1 := by
  rw [entriesBelow, List.pairwise_map]
  refine (d.nodes.scan_sorted _).imp_of_mem ?_
  intro a b ha hb hab
  rw [eq_of_dropLast (Store.mem_scan.mp ha).2, eq_of_dropLast (Store.mem_scan.mp hb).2, append_lt_append_left] at hab
  exact hab

theorem locate_slash {d : Disk} {p : Str} (hp : p ≠ []) {l : Loc} (hl : d.locate p = some l) (hdir : d.isDir l = true) :
    d.locate (p ++ ['/']) = some l := by
  have hstart : d.startOf (p ++ ['/']) = d.startOf p := by
    cases p with
    | nil => exact absurd rfl hp
    | cons c p => rfl
  unfold locate at hl ⊢
  rw [if_neg hp] at hl
  rw [if_neg (by simp), hstart, List.splitOn_append_cons_self, walk_append, hl, Option.bind_some, List.splitOn_nil, walk_cons,
    if_pos hdir, follow, if_pos (Or.inl rfl)]
  rfl

/-- Names without dots only lead down. -/
theorem walk_down (d : Disk) : ∀ {cs : List Str} {cur l : Loc}, (∀ x ∈ cs, '.' ∉ x) → d.walk cur cs = some l →
    l = cur ++ cs.filter (· ≠ [])
  | [], cur, l, _, hw => by
    rw [← Option.some.inj hw, List.filter_nil, List.append_nil]
  | x :: cs, cur, l, hdots, hw => by
    obtain ⟨hx, hcs⟩ := List.forall_mem_cons.mp hdots
    rw [walk_cons] at hw
    split at hw
    · have hrest := walk_down d hcs hw
      have hdot : x ≠ ['.'] ∧ x ≠ ['.', '.'] := by
        constructor
        all_goals
          intro heq
          subst heq
          exact hx List.mem_cons_self
      by_cases hnil : x = []
      · rw [hrest, follow, if_pos (Or.inl hnil), List.filter_cons_of_neg (by simp [hnil])]
      · rw [hrest, follow, if_neg (by simp [hnil, hdot.1]), if_neg hdot.2, List.filter_cons_of_pos (by simp [hnil]),
          List.append_assoc, List.singleton_append]
    · cases hw

/-! ## Two files worked on -/

/-- `d` is `d₀` with other bytes in the two files at `p` and `q`, or without them; `x` and `y`
    are the bytes. -/
structure Pair (d₀ : Disk) (p q : Loc) (d : Disk) (x y : Option Str) : Prop where
  cwd : d.cwd = d₀.cwd
  other : ∀ k, k ≠ p → k ≠ q → d.node k = d₀.node k
  ne : p ≠ q
  file : d₀.node p ≠ some .dir
  file' : d₀.node q ≠ some .dir
  first : ∃ t, d.node p = x.map (Node.file · t)
  second : ∃ t, d.node q = y.map (Node.file · t)

namespace Pair

variable {d₀ d d' : Disk} {p q : Loc} {x y : Option Str}

theorem start (hp : d₀.node p ≠ some .dir) (hq : d₀.node q ≠ some .dir) (hne : p ≠ q) : ∃ x y, Pair d₀ p q d₀ x y := by
  have hbytes : ∀ k, d₀.node k ≠ some .dir → ∃ (z : Option Str) (t : Int), d₀.node k = z.map (Node.file · t) := by
    intro k hk
    cases hn : d₀.node k with
    | none => exact ⟨none, 0, rfl⟩
    | some n =>
      cases n with
      | dir => exact absurd hn hk
      | file data t => exact ⟨some data, t, rfl⟩
  obtain ⟨x, t, hx⟩ := hbytes p hp
  obtain ⟨y, u, hy⟩ := hbytes q hq
  exact ⟨x, y, rfl, fun _ _ _ => rfl, hne, hp, hq, ⟨t, hx⟩, ⟨u, hy⟩⟩

theorem swap (h : Pair d₀ p q d x y) : Pair d₀ q p d y x :=
  ⟨h.cwd, fun k hq hp => h.other k hp hq, h.ne.symm, h.file', h.file, h.second, h.first⟩

theorem node_ne_dir (h : Pair d₀ p q d x y) : d.node p ≠ some .dir := by
  obtain ⟨t, ht⟩ := h.first
  rw [ht]
  cases x <;> simp

theorem isDir (h : Pair d₀ p q d x y) (k : Loc) : d.isDir k = d₀.isDir k := by
  unfold Disk.isDir
  by_cases hp : k = p
  · subst hp
    rw [beq_eq_false_iff_ne.mpr h.node_ne_dir, beq_eq_false_iff_ne.mpr h.file]
  by_cases hq : k = q
  · subst hq
    rw [beq_eq_false_iff_ne.mpr h.swap.node_ne_dir, beq_eq_false_iff_ne.mpr h.file']
  · rw [h.other k hp hq]

theorem locate (h : Pair d₀ p q d x y) (r : Str) : d.locate r = d₀.locate r := locate_congr h.cwd h.isDir r

theorem read (h : Pair d₀ p q d x y) {r : Str} (hr : d₀.locate r = some p) : d.read r = x := by
  obtain ⟨t, ht⟩ := h.first
  have hstat : d.stat r = x.map (Node.file · t) := by rw [stat, h.locate r, hr, Option.bind_some, ht]
  unfold Disk.read
  rw [hstat]
  cases x <;> rfl

/-- What is not at one of the two places reads as before. -/
theorem read_other (h : Pair d₀ p q d x y) {r : Str} (hp : d₀.locate r ≠ some p) (hq : d₀.locate r ≠ some q) :
    d.read r = d₀.read r := by
  have hstat : d.stat r = d₀.stat r := by
    unfold Disk.stat
    rw [h.locate r]
    cases hr : d₀.locate r with
    | none => rfl
    | some k => exact h.other k (fun e => hp (hr.trans (congrArg some e))) (fun e => hq (hr.trans (congrArg some e)))
  unfold Disk.read
  rw [hstat]

theorem put (h : Pair d₀ p q d x y) (data : Str) (t : Int) : Pair d₀ p q (d.put p (.file data t)) (some data) y := by
  have hroot : p ≠ [] := ne_root_of_node h.node_ne_dir
  refine ⟨h.cwd, fun k hp hq => ?_, h.ne, h.file, h.file', ⟨t, ?_⟩, ?_⟩
  · rw [node_put hroot, if_neg hp]
    exact h.other k hp hq
  · rw [node_put hroot, if_pos rfl]
    rfl
  · rw [node_put hroot, if_neg h.ne.symm]
    exact h.second

theorem erase (h : Pair d₀ p q d x y) : Pair d₀ p q (d.erase p) none y := by
  have hroot : p ≠ [] := ne_root_of_node h.node_ne_dir
  refine ⟨h.cwd, fun k hp hq => ?_, h.ne, h.file, h.file', ⟨0, ?_⟩, ?_⟩
  · rw [node_erase hroot, if_neg hp]
    exact h.other k hp hq
  · rw [node_erase hroot, if_pos rfl]
    rfl
  · rw [node_erase hroot, if_neg h.ne.symm]
    exact h.second

/-- Removing the first file, if it is there. -/
theorem remove (h : Pair d₀ p q d x y) {r : Str} (hr : d₀.locate r = some p) : Pair d₀ p q ((d.remove r).getD d) none y := by
  have hloc := (h.locate r).trans hr
  obtain ⟨t, ht⟩ := h.first
  cases x with
  | none =>
    have hnone : d.remove r = none := by simp only [Disk.remove, hloc, ht, Option.map_none]
    rw [hnone]
    exact h
  | some data =>
    have hsome : d.remove r = some (d.erase p) := by simp only [Disk.remove, hloc, ht, Option.map_some]
    rw [hsome]
    exact h.erase

/-- Writing at the end of the first file. -/
theorem append (h : Pair d₀ p q d x y) {r : Str} (hr : d₀.locate r = some p) {data : Str} (now : Int)
    (hlen : (x.getD [] ++ data).length < 2 ^ 63) :
    ∃ d', d.append r data now = some d' ∧ Pair d₀ p q d' (some (x.getD [] ++ data)) y := by
  have hread := h.read hr
  refine ⟨d.put p (.file (x.getD [] ++ data) now), ?_, h.put _ _⟩
  rw [Disk.append, hread, if_pos hlen]
  exact modify_eq_some.mpr ⟨p, (h.locate r).trans hr, h.node_ne_dir, by rw [hread]⟩

end Pair

/-! ## Directories made around a change -/

section
variable {ok : Str → Prop}

end

end Disk

end GoFastdfs
