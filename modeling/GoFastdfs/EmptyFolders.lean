/-
  GoFastdfs.EmptyFolders — the daily removal of empty folders (`cleanEmptyFolders` and
  `isEmptyDir` of `http_upload.go`).

  The walk of the store removes a folder below which no file is, whatever folders are below
  it, but for a path with `files/_big` or `files/_tmp` in it and for the path `files`. The
  names of a folder are read before it is removed: the walk then looks for the first of them,
  does not find it, and ends with the error.

  Proved: the files stay, STORE_DIR and the folders at or below `_big` and `_tmp` stay and no
  other folder without a file does, exactly if STORE_DIR is not removed itself, each such
  folder has one above it or is one that may be removed, and of the topmost of these only the
  last in the walk has a folder in it (`cleanEmptyFolders_iff`).
-/

import GoFastdfs.Server
import GoFastdfs.Go.Walk

namespace GoFastdfs

open Go (Str Tree Stop lstat visit visitAll join)

variable (c : Config)

/-! ## The code -/

def emptyStep (_ : Str) (_ : Loc) (info : Option Tree) (isEmpty : Bool) : Bool × Option Stop :=
  match info with
  | none => (isEmpty, some .err)
  | some t => if t.isDir = false then (false, some .skipDir) else (isEmpty, none)

def isEmptyDir (tree : Option Tree) (dirPath : Str) (l : Loc) : Bool :=
  match Go.filepathWalk (fun _ => tree) emptyStep dirPath l true with
  | some (isEmpty, none) => isEmpty
  | _ => false

/-- Neither the store, as `DOCKER_DIR` is empty, nor with the folder of the large or the
    temporary files in its path. -/
def Unguarded (path : Str) : Prop :=
  Go.contains path (STORE_DIR_NAME ++ "/_big".toList) = false ∧ Go.contains path (STORE_DIR_NAME ++ "/_tmp".toList) = false ∧
    path ≠ STORE_DIR_NAME

instance (path : Str) : Decidable (Unguarded path) := inferInstanceAs (Decidable (_ ∧ _))

def cleanStep (path : Str) (l : Loc) (info tree : Option Tree) : Option Tree × Option Stop :=
  match info with
  | none => (tree, some .err)
  | some t =>
    if t.isDir = true ∧ Unguarded path ∧ isEmptyDir tree path l = true then (tree.bind fun u => u.remove l, none)
    else (tree, none)

def cleanEmptyFolders (dirPath : Str) (tree : Option Tree) : Option (Option Tree × Option Stop) :=
  Go.filepathWalk id cleanStep dirPath [] tree

/-! ## What the walk removes -/

def CanGo (path : Str) (t : Tree) : Prop := t.isDir = true ∧ Unguarded path ∧ t.noFile = true

instance (path : Str) (t : Tree) : Decidable (CanGo path t) := inferInstanceAs (Decidable (_ ∧ _))

mutual

/-- The topmost folders that can go, in the order of the walk. -/
def tops : Tree → Str → List (Loc × Tree)
  | .file _ _, _ => []
  | .dir es, path => if CanGo path (.dir es) then [([], .dir es)] else topsIn es path

def topsIn : List (Str × Tree) → Str → List (Loc × Tree)
  | [], _ => []
  | (n, t) :: es, path => (tops t (join path n)).map (fun r => (n :: r.1, r.2)) ++ topsIn es path

end

def isBare (r : Loc × Tree) : Bool := r.2.entries.isEmpty

def upToFull : List (Loc × Tree) → List Loc
  | [] => []
  | r :: rs => r.1 :: if isBare r then upToFull rs else []

def removeEach : List Loc → Option Tree → Option Tree
  | [], tree => tree
  | l :: ls, tree => removeEach ls (tree.bind fun u => u.remove l)

/-! ## What is to be left -/

/-- At or below `_big` or `_tmp`. -/
def InSpecial (l : Loc) : Prop := l.head? = some "_big".toList ∨ l.head? = some "_tmp".toList

instance (l : Loc) : Decidable (InSpecial l) := inferInstanceAs (Decidable (_ ∨ _))

def Fileless (tree : Tree) (l : Loc) : Prop := ∀ k, l <+: k → ∀ data mtime, tree.find k ≠ some (.file data mtime)

structure CleanedExactly (tree : Tree) (left : Option Tree) : Prop where
  files : ∀ l data mtime, tree.find l = some (.file data mtime) → lstat id left l = some (.file data mtime)
  kept : ∀ l es, tree.find l = some (.dir es) → l = [] ∨ InSpecial l → ∃ es', lstat id left l = some (.dir es')
  gone : ∀ l es, tree.find l = some (.dir es) → l ≠ [] → ¬ InSpecial l → Fileless tree l → lstat id left l = none

def walkedPath (l : Loc) : Str := l.foldl join c.STORE_DIR

/-- A folder that the walk removes if it comes there. -/
def Removable (tree : Tree) (l : Loc) : Prop :=
  (∃ es, tree.find l = some (.dir es)) ∧ Unguarded (walkedPath c l) ∧ Fileless tree l

/-- One with no other above it. -/
def Topmost (tree : Tree) (l : Loc) : Prop := Removable c tree l ∧ ∀ k, k <+: l → Removable c tree k → k = l

structure CleansExactly (tree : Tree) : Prop where
  store : ¬ Removable c tree []
  covered : ∀ l es, tree.find l = some (.dir es) → l ≠ [] → ¬ InSpecial l → Fileless tree l →
    ∃ k, k <+: l ∧ Removable c tree k
  bare : ∀ l m, Topmost c tree l → Topmost c tree m → l < m → tree.find l = some (.dir [])

section
variable {c}

/-! ## `isEmptyDir` -/

theorem emptyStep_prunes (tree : Option Tree) : Go.Prunes (fun _ => tree) emptyStep :=
  ⟨fun _ _ _ _ _ _ => rfl, fun _ _ _ _ => Or.inl rfl⟩

theorem visitAll_emptyStep {tree : Option Tree} {p : Str} {l : Loc} : ∀ {es : List (Str × Tree)},
    (∀ e ∈ es, ∀ path l b, lstat (fun _ => tree) b l = some e.2 →
      ∃ stop, visit (fun _ => tree) emptyStep e.2 path l b = (b && e.2.noFile, stop) ∧ stop ≠ some .err) →
    ∀ b, (∀ e ∈ es, lstat (fun _ => tree) b (l ++ [e.1]) = some e.2) →
      ∃ stop, visitAll (fun _ => tree) emptyStep es p l b = (b && Tree.noFileIn es, stop) ∧ stop ≠ some .err
  | [], _, b, _ => ⟨none, by simp [visitAll, Tree.noFileIn], by simp⟩
  | (n, t) :: es, hes, b, hthere => by
    have hlstat := hthere _ List.mem_cons_self
    obtain ⟨stop, hvisit, hstop⟩ := hes _ List.mem_cons_self (join p n) (l ++ [n]) b hlstat
    have hrest := visitAll_emptyStep (p := p) (fun e he => hes e (List.mem_cons_of_mem _ he)) (b && t.noFile)
      fun e he => hthere e (List.mem_cons_of_mem _ he)
    rw [Tree.noFileIn, ← Bool.and_assoc]
    simp only [visitAll, hlstat, hvisit]
    rcases stop with _ | _ | _
    · exact hrest
    · dsimp only
      split
      · rename_i hdir
        have hfile : t.noFile = false := by
          cases t with
          | file => rfl
          | dir => simp [Tree.isDir] at hdir
        exact ⟨some .skipDir, by simp [hfile], by simp⟩
      · exact hrest
    · exact absurd rfl hstop

theorem visit_emptyStep {tree : Option Tree} {t : Tree} (ht : t.Listed) : ∀ (path : Str) (l : Loc) (b : Bool),
    lstat (fun _ => tree) b l = some t →
      ∃ stop, visit (fun _ => tree) emptyStep t path l b = (b && t.noFile, stop) ∧ stop ≠ some .err := by
  induction t using Tree.induct with
  | file data mtime => exact fun path l b _ => ⟨some .skipDir, by simp [visit, emptyStep, Tree.isDir, Tree.noFile], by simp⟩
  | dir es ih =>
    intro path l b hl
    cases ht with
    | dir hsorted _ hbelow =>
      have hall := visitAll_emptyStep (p := path) (fun e he => ih e he (hbelow e he)) b fun e he =>
        Go.lstat_entry hl hsorted he
      simpa only [visit, emptyStep, Tree.isDir, Tree.noFile, Bool.true_eq_false, if_false] using hall

theorem isEmptyDir_eq {tree : Option Tree} {t : Tree} (ht : t.Listed) {l : Loc} (hl : lstat id tree l = some t) (path : Str) :
    isEmptyDir tree path l = t.noFile := by
  have hthere : lstat (fun _ => tree) true l = some t := hl
  obtain ⟨stop, hvisit, hstop⟩ := visit_emptyStep ht path l true hthere
  rw [isEmptyDir, Go.filepathWalk_eq (emptyStep_prunes tree) ht hthere, hvisit, Bool.true_and]
  rcases stop with _ | _ | _
  · rfl
  · rfl
  · exact absurd rfl hstop

/-! ## The walk of the store -/

theorem cleanStep_prunes : Go.Prunes id cleanStep := by
  constructor
  · intro path l info tree k hk
    unfold cleanStep
    rcases info with _ | t
    · rfl
    · dsimp only
      split
      · exact Go.lstat_remove_apart hk tree
      · rfl
  · intro path l info tree
    unfold cleanStep
    rcases info with _ | t
    · exact Or.inl rfl
    · dsimp only
      split
      · exact Or.inr (Go.lstat_remove_below (List.prefix_refl l) tree)
      · exact Or.inl rfl

theorem upToFull_append (a b : List (Loc × Tree)) :
    upToFull (a ++ b) = if a.all isBare then upToFull a ++ upToFull b else upToFull a := by
  induction a with
  | nil => rfl
  | cons r a ih =>
    by_cases hr : isBare r = true
    · by_cases ha : a.all isBare = true
      · simp [upToFull, ih, hr, ha]
      · simp only [List.cons_append, upToFull, List.all_cons, ih, hr, ha, Bool.and_false, if_true, if_false, Bool.false_eq_true]
    · simp [upToFull, hr]

theorem upToFull_map (f : Loc → Loc) (rs : List (Loc × Tree)) :
    upToFull (rs.map fun r => (f r.1, r.2)) = (upToFull rs).map f := by
  induction rs with
  | nil => rfl
  | cons r rs ih =>
    have hbare : isBare (f r.1, r.2) = isBare r := rfl
    rw [List.map_cons, upToFull, upToFull, ih, hbare]
    split <;> rfl

theorem removeEach_append (a b : List Loc) (tree : Option Tree) :
    removeEach (a ++ b) tree = removeEach b (removeEach a tree) := by
  induction a generalizing tree with
  | nil => rfl
  | cons l a ih => exact ih _

def endOf (rs : List (Loc × Tree)) : Option Stop := if rs.all isBare then none else some .err

theorem visitAll_cleanStep {p : Str} {l : Loc} : ∀ {es : List (Str × Tree)}, (es.Pairwise fun a b => a.1 < b.1) →
    (∀ e ∈ es, ∀ path l tree, lstat id tree l = some e.2 →
      visit id cleanStep e.2 path l tree =
        (removeEach ((upToFull (tops e.2 path)).map (l ++ ·)) tree, endOf (tops e.2 path))) →
    ∀ tree, (∀ e ∈ es, lstat id tree (l ++ [e.1]) = some e.2) →
      visitAll id cleanStep es p l tree =
        (removeEach ((upToFull (topsIn es p)).map (l ++ ·)) tree, endOf (topsIn es p))
  | [], _, _, _, _ => rfl
  | (n, t) :: es, hsorted, hes, tree, hthere => by
    obtain ⟨hn, hsorted⟩ := List.pairwise_cons.mp hsorted
    have hlstat := hthere _ List.mem_cons_self
    have hvisit := hes _ List.mem_cons_self (join p n) (l ++ [n]) tree hlstat
    have hframe : ∀ e ∈ es, lstat id (visit id cleanStep t (join p n) (l ++ [n]) tree).1 (l ++ [e.1]) = some e.2 :=
      fun e he => (Go.visit_apart cleanStep_prunes t _ _ _ _ (Go.apart_of_ne (hn e he).ne')).trans
        (hthere e (List.mem_cons_of_mem _ he))
    have hrest := visitAll_cleanStep (p := p) hsorted (fun e he => hes e (List.mem_cons_of_mem _ he)) _ hframe
    have hmap : ((upToFull (tops t (join p n))).map (n :: ·)).map (l ++ ·) =
        (upToFull (tops t (join p n))).map (l ++ [n] ++ ·) := by simp
    have hall : ((tops t (join p n)).map fun r => (n :: r.1, r.2)).all isBare = (tops t (join p n)).all isBare :=
      List.all_map
    rw [hvisit] at hrest
    rw [topsIn, upToFull_append, upToFull_map (n :: ·), endOf, List.all_append, hall]
    simp only [visitAll, hlstat, hvisit, endOf]
    cases hb : (tops t (join p n)).all isBare with
    | true =>
      rw [if_pos rfl, if_pos rfl, List.map_append, hmap, removeEach_append, Bool.true_and]
      exact hrest
    | false =>
      rw [if_neg (by simp), if_neg (by simp), Bool.false_and, hmap]
      exact if_pos (Or.inr (by decide))

/-- The walk removes the topmost folders that can go, up to the first with a folder in it,
    where it ends with an error. -/
theorem visit_cleanStep {t : Tree} (ht : t.Listed) : ∀ (path : Str) (l : Loc) (tree : Option Tree), lstat id tree l = some t →
    visit id cleanStep t path l tree = (removeEach ((upToFull (tops t path)).map (l ++ ·)) tree, endOf (tops t path)) := by
  induction t using Tree.induct with
  | file data mtime => exact fun path l tree _ => by simp [visit, cleanStep, Tree.isDir, tops, upToFull, removeEach, endOf]
  | dir es ih =>
    intro path l tree hl
    have hempty := isEmptyDir_eq ht hl path
    cases ht with
    | dir hsorted _ hbelow =>
      have hall := visitAll_cleanStep (p := path) hsorted (fun e he => ih e he (hbelow e he)) tree fun e he =>
        Go.lstat_entry hl hsorted he
      rw [visit, tops, cleanStep, hempty]
      by_cases hgo : CanGo path (.dir es)
      · have hcond : (Tree.dir es).isDir = true ∧ Unguarded path ∧ (Tree.dir es).noFile = true := hgo
        rw [if_pos hgo, if_pos hcond]
        -- the folder has gone, and with it the names that were read
        cases es with
        | nil => simp [visitAll, upToFull, removeEach, endOf, isBare, Tree.entries]
        | cons e es =>
          have hgone := Go.lstat_remove_below (List.prefix_append l [e.1]) tree
          simp [visitAll, hgone, cleanStep, upToFull, removeEach, endOf, isBare, Tree.entries]
      · have hcond : ¬ ((Tree.dir es).isDir = true ∧ Unguarded path ∧ (Tree.dir es).noFile = true) := hgo
        rw [if_neg hgo, if_neg hcond]
        exact hall

/-! ## What is left -/

theorem lstat_removeEach_none {k : Loc} : ∀ {ls : List Loc} {tree : Option Tree}, lstat id tree k = none →
    lstat id (removeEach ls tree) k = none
  | [], _, h => h
  | l :: ls, tree, h => by
    rw [removeEach]
    apply lstat_removeEach_none
    by_cases hl : l <+: k
    · exact Go.lstat_remove_below hl tree
    · have hlabel := Go.label_lstat_remove hl tree
      rw [h] at hlabel
      exact Option.map_eq_none_iff.mp hlabel

theorem lstat_removeEach_below {k l : Loc} (hlk : l <+: k) : ∀ {ls : List Loc}, l ∈ ls → ∀ tree : Option Tree,
    lstat id (removeEach ls tree) k = none
  | m :: ls, hl, tree => by
    rw [removeEach]
    rcases List.mem_cons.mp hl with rfl | hl
    · exact lstat_removeEach_none (Go.lstat_remove_below hlk tree)
    · exact lstat_removeEach_below hlk hl _

theorem label_removeEach {k : Loc} : ∀ {ls : List Loc}, (∀ l ∈ ls, ¬ l <+: k) → ∀ tree : Option Tree,
    (lstat id (removeEach ls tree) k).map Tree.label = (lstat id tree k).map Tree.label
  | [], _, _ => rfl
  | l :: ls, h, tree => by
    obtain ⟨hl, hls⟩ := List.forall_mem_cons.mp h
    rw [removeEach, label_removeEach hls, Go.label_lstat_remove hl]

/-! ## The topmost folders -/

theorem mem_topsIn {p : Str} {r : Loc × Tree} : ∀ {es : List (Str × Tree)},
    r ∈ topsIn es p ↔ ∃ n t l, (n, t) ∈ es ∧ r.1 = n :: l ∧ (l, r.2) ∈ tops t (join p n)
  | [] => by simp [topsIn]
  | (n, t) :: es => by
    rw [topsIn, List.mem_append, mem_topsIn]
    constructor
    · intro h
      rcases h with h | ⟨m, u, l, hm, hr⟩
      · obtain ⟨q, hq, rfl⟩ := List.mem_map.mp h
        exact ⟨n, t, q.1, List.mem_cons_self, rfl, hq⟩
      · exact ⟨m, u, l, List.mem_cons_of_mem _ hm, hr⟩
    · intro h
      obtain ⟨m, u, l, hm, hr, hl⟩ := h
      rcases List.mem_cons.mp hm with e | hm
      · cases e
        exact Or.inl (List.mem_map.mpr ⟨(l, r.2), hl, by rw [← hr]⟩)
      · exact Or.inr ⟨m, u, l, hm, hr, hl⟩

theorem tops_of_canGo {t : Tree} {p : Str} (h : CanGo p t) : tops t p = [([], t)] := by
  cases t with
  | file => exact absurd h.1 (by simp [Tree.isDir])
  | dir es => rw [tops, if_pos h]

theorem exists_top : ∀ {l : Loc} {t u : Tree} {p : Str}, t.find l = some u → CanGo (l.foldl join p) u →
    ∃ r ∈ tops t p, r.1 <+: l
  | l, t, u, p, hl, hu => by
    by_cases ht : CanGo p t
    · exact ⟨([], t), by rw [tops_of_canGo ht]; exact List.mem_cons_self, List.nil_prefix⟩
    · rcases l with _ | ⟨n, l⟩
      · obtain rfl := Option.some.inj hl
        exact absurd hu ht
      · cases t with
        | file => simp [Tree.find, Tree.entries] at hl
        | dir es =>
          obtain ⟨t, hmem, hfind⟩ := Tree.find_cons_eq_some hl
          obtain ⟨r, hr, hpre⟩ := exists_top hfind hu
          refine ⟨(n :: r.1, r.2), ?_, List.cons_prefix_cons.mpr ⟨rfl, hpre⟩⟩
          rw [tops, if_neg ht]
          exact mem_topsIn.mpr ⟨n, t, r.1, hmem, rfl, hr⟩

theorem mem_tops {t : Tree} (ht : t.Listed) : ∀ {p : Str} {l : Loc} {u : Tree}, (l, u) ∈ tops t p ↔
    t.find l = some u ∧ CanGo (l.foldl join p) u ∧
      ∀ k v, k <+: l → t.find k = some v → CanGo (k.foldl join p) v → k = l := by
  induction t using Tree.induct with
  | file data mtime =>
    intro p l u
    refine iff_of_false (by simp [tops]) fun h => ?_
    obtain ⟨hl, hgo, _⟩ := h
    rcases l with _ | ⟨n, l⟩
    · obtain rfl := Option.some.inj hl
      exact absurd hgo.1 (by simp [Tree.isDir])
    · simp [Tree.find, Tree.entries] at hl
  | dir es ih =>
    intro p l u
    cases ht with
    | dir hsorted _ hbelow =>
    by_cases hgo : CanGo p (.dir es)
    · rw [tops_of_canGo hgo, List.mem_singleton]
      constructor
      · intro h
        cases h
        exact ⟨rfl, hgo, fun k v hk _ _ => List.prefix_nil.mp hk⟩
      · intro h
        obtain ⟨hl, _, hmin⟩ := h
        obtain rfl := hmin [] _ List.nil_prefix rfl hgo
        rw [Option.some.inj hl]
    · rw [tops, if_neg hgo, mem_topsIn]
      constructor
      · intro h
        obtain ⟨n, t, l', hmem, hl, htop⟩ := h
        obtain ⟨hfind, hu, hmin⟩ := (ih _ hmem (hbelow _ hmem)).mp htop
        obtain rfl : l = n :: l' := hl
        refine ⟨(Tree.Listed.find_cons hsorted hmem l').trans hfind, hu, fun k v hk hv hcan => ?_⟩
        rcases k with _ | ⟨m, k⟩
        · obtain rfl := Option.some.inj hv
          exact absurd hcan hgo
        · obtain ⟨rfl, hpre⟩ := List.cons_prefix_cons.mp hk
          rw [Tree.Listed.find_cons hsorted hmem] at hv
          rw [hmin k v hpre hv hcan]
      · intro h
        obtain ⟨hl, hu, hmin⟩ := h
        rcases l with _ | ⟨n, l⟩
        · obtain rfl := Option.some.inj hl
          exact absurd hu hgo
        · obtain ⟨t, hmem, hfind⟩ := Tree.find_cons_eq_some hl
          refine ⟨n, t, l, hmem, rfl, (ih _ hmem (hbelow _ hmem)).mpr ⟨hfind, hu, fun k v hk hv hcan => ?_⟩⟩
          have hcons := hmin (n :: k) v (List.cons_prefix_cons.mpr ⟨rfl, hk⟩)
            ((Tree.Listed.find_cons hsorted hmem k).trans hv) hcan
          exact (List.cons.inj hcons).2

theorem topsIn_sorted {p : Str} : ∀ {es : List (Str × Tree)}, (es.Pairwise fun a b => a.1 < b.1) →
    (∀ e ∈ es, ∀ p, (tops e.2 p).Pairwise fun a b => a.1 < b.1) → (topsIn es p).Pairwise fun a b => a.1 < b.1
  | [], _, _ => List.Pairwise.nil
  | (n, t) :: es, hsorted, hes => by
    obtain ⟨hn, hsorted⟩ := List.pairwise_cons.mp hsorted
    rw [topsIn, List.pairwise_append, List.pairwise_map]
    refine ⟨(hes _ List.mem_cons_self _).imp fun h => ?_, topsIn_sorted hsorted fun e he => hes e (List.mem_cons_of_mem _ he),
      fun a ha b hb => ?_⟩
    · exact List.cons_lt_cons_iff.mpr (Or.inr ⟨rfl, h⟩)
    · obtain ⟨a, _, rfl⟩ := List.mem_map.mp ha
      obtain ⟨m, u, l, hm, hb, _⟩ := mem_topsIn.mp hb
      rw [hb]
      exact List.cons_lt_cons_iff.mpr (Or.inl (hn _ hm))

theorem tops_sorted {t : Tree} (ht : t.Listed) : ∀ p : Str, (tops t p).Pairwise fun a b => a.1 < b.1 := by
  induction t using Tree.induct with
  | file data mtime => exact fun p => by simp [tops]
  | dir es ih =>
    intro p
    cases ht with
    | dir hsorted _ hbelow =>
      rw [tops]
      split
      · exact List.pairwise_singleton _ _
      · exact topsIn_sorted hsorted fun e he => ih e he (hbelow e he)

theorem mem_of_mem_upToFull {l : Loc} : ∀ {rs : List (Loc × Tree)}, l ∈ upToFull rs → ∃ u, (l, u) ∈ rs
  | r :: rs, h => by
    rcases List.mem_cons.mp h with rfl | h
    · exact ⟨r.2, List.mem_cons_self⟩
    · split at h
      · obtain ⟨u, hu⟩ := mem_of_mem_upToFull h
        exact ⟨u, List.mem_cons_of_mem _ hu⟩
      · cases h

/-- All are removed if none but the last has a folder in it. -/
theorem mem_upToFull_of_bare : ∀ {rs : List (Loc × Tree)}, (rs.Pairwise fun a b => a.1 < b.1) →
    (∀ a ∈ rs, ∀ b ∈ rs, a.1 < b.1 → isBare a = true) → ∀ r ∈ rs, r.1 ∈ upToFull rs
  | a :: rs, hsorted, hbare, r, hr => by
    obtain ⟨ha, hsorted⟩ := List.pairwise_cons.mp hsorted
    rw [upToFull]
    rcases List.mem_cons.mp hr with rfl | hr
    · exact List.mem_cons_self
    · rw [if_pos (hbare a List.mem_cons_self r (List.mem_cons_of_mem _ hr) (ha r hr))]
      exact List.mem_cons_of_mem _ (mem_upToFull_of_bare hsorted
        (fun b hb b' hb' => hbare b (List.mem_cons_of_mem _ hb) b' (List.mem_cons_of_mem _ hb')) r hr)

/-- Nothing is removed after one with a folder in it. -/
theorem notMem_upToFull : ∀ {rs : List (Loc × Tree)}, (rs.Pairwise fun a b => a.1 < b.1) → ∀ {a b : Loc × Tree}, a ∈ rs →
    b ∈ rs → a.1 < b.1 → isBare a = false → b.1 ∉ upToFull rs
  | c :: rs, hsorted, a, b, ha, hb, hab, hbare => by
    obtain ⟨hc, hsorted⟩ := List.pairwise_cons.mp hsorted
    have hcb : c.1 < b.1 := by
      rcases List.mem_cons.mp hb with rfl | hb
      · rcases List.mem_cons.mp ha with rfl | ha
        · exact hab
        · exact absurd (hc a ha) (lt_asymm hab)
      · exact hc b hb
    have hb' : b ∈ rs := (List.mem_cons.mp hb).resolve_left fun e => absurd hcb (by rw [e]; exact lt_irrefl _)
    rw [upToFull, List.mem_cons, not_or]
    refine ⟨hcb.ne', ?_⟩
    rcases List.mem_cons.mp ha with rfl | ha
    · rw [hbare]
      exact List.not_mem_nil
    · split
      · exact notMem_upToFull hsorted ha hb' hab hbare
      · exact List.not_mem_nil

/-! ## The condition -/

theorem fileless_iff {tree u : Tree} {l : Loc} (hl : tree.find l = some u) (hu : u.Listed) :
    u.noFile = true ↔ Fileless tree l := by
  have hfind : ∀ k, tree.find (l ++ k) = u.find k := fun k => by rw [Tree.find_append, hl, Option.bind_some]
  rw [hu.noFile_iff]
  constructor
  · intro h k hk data mtime hfile
    obtain ⟨k, rfl⟩ := hk
    exact h k data mtime ((hfind k).symm.trans hfile)
  · intro h k data mtime hfile
    exact h (l ++ k) (List.prefix_append l k) data mtime ((hfind k).trans hfile)

theorem canGo_iff {tree u : Tree} (ht : tree.Listed) {l : Loc} (hl : tree.find l = some u) :
    CanGo (walkedPath c l) u ↔ Removable c tree l := by
  have hempty := fileless_iff hl (ht.find hl).1
  constructor
  · intro h
    cases u with
    | file => exact absurd h.1 (by simp [Tree.isDir])
    | dir es => exact ⟨⟨es, hl⟩, h.2.1, hempty.mp h.2.2⟩
  · intro h
    obtain ⟨⟨es, hes⟩, hpath, hnone⟩ := h
    obtain rfl := Option.some.inj (hl.symm.trans hes)
    exact ⟨rfl, hpath, hempty.mpr hnone⟩

/-- What the walk of the store comes to first is what is topmost in it. -/
theorem topmost_iff {tree : Tree} (ht : tree.Listed) (l : Loc) :
    Topmost c tree l ↔ ∃ u, (l, u) ∈ tops tree c.STORE_DIR := by
  constructor
  · intro h
    obtain ⟨hgo, hmin⟩ := h
    obtain ⟨es, hes⟩ := hgo.1
    exact ⟨_, (mem_tops ht).mpr ⟨hes, (canGo_iff ht hes).mpr hgo, fun k v hk hv hcan =>
      hmin k hk ((canGo_iff ht hv).mp hcan)⟩⟩
  · intro h
    obtain ⟨u, hu⟩ := h
    obtain ⟨hl, hgo, hmin⟩ := (mem_tops ht).mp hu
    refine ⟨(canGo_iff ht hl).mp hgo, fun k hk hcan => ?_⟩
    obtain ⟨es, hes⟩ := hcan.1
    exact hmin k _ hk hes ((canGo_iff ht hes).mpr hcan)

theorem exists_topmost {tree : Tree} (ht : tree.Listed) {l : Loc} (h : Removable c tree l) :
    ∃ k u, k <+: l ∧ (k, u) ∈ tops tree c.STORE_DIR := by
  obtain ⟨es, hes⟩ := h.1
  obtain ⟨r, hr, hpre⟩ := exists_top hes ((canGo_iff ht hes).mpr h)
  exact ⟨r.1, r.2, hpre, hr⟩

theorem kept_STORE_DIR (hdir : Go.DirText c.dockerDir) : Go.kept c.STORE_DIR = STORE_DIR_NAME :: Go.kept c.dockerDir :=
  (Go.kept_entry hdir ⟨by decide, by decide, by decide⟩ (by decide)).2

/-- The path with which the walk comes to `_big` or `_tmp`, or below, says so. -/
theorem not_unguarded (hdir : Go.DirText c.dockerDir) {l : Loc} (hnames : ∀ n ∈ l, Go.Name n ∧ n ≠ ['.', '.'])
    (h : InSpecial l) : ¬ Unguarded (walkedPath c l) := by
  have hstore : c.STORE_DIR ≠ [] := by simp [Config.STORE_DIR, STORE_DIR_NAME]
  obtain ⟨n, k, rfl⟩ : ∃ n k, l = n :: k := by
    rcases l with _ | ⟨n, k⟩
    · simp [InSpecial] at h
    · exact ⟨n, k, rfl⟩
  have hinfix : STORE_DIR_NAME ++ '/' :: n <:+: walkedPath c (n :: k) :=
    Go.infix_foldl_join hstore (kept_STORE_DIR hdir) hnames
  intro hpath
  rcases h with h | h
  · obtain rfl : n = "_big".toList := Option.some.inj h
    exact Bool.false_ne_true (hpath.1.symm.trans (Go.contains_iff.mpr hinfix))
  · obtain rfl : n = "_tmp".toList := Option.some.inj h
    exact Bool.false_ne_true (hpath.2.1.symm.trans (Go.contains_iff.mpr hinfix))

/-! ## One run -/

theorem cleanEmptyFolders_eq {tree : Tree} (ht : tree.Listed) : ∃ stop, cleanEmptyFolders c.STORE_DIR (some tree) =
    some (removeEach (upToFull (tops tree c.STORE_DIR)) (some tree), stop) := by
  have hmap : (upToFull (tops tree c.STORE_DIR)).map (([] : Loc) ++ ·) = upToFull (tops tree c.STORE_DIR) := by simp
  rw [cleanEmptyFolders, Go.filepathWalk_eq cleanStep_prunes ht rfl, visit_cleanStep ht _ _ _ rfl, hmap, endOf]
  split <;> exact ⟨_, rfl⟩

theorem topmost_of_mem_upToFull {tree : Tree} (ht : tree.Listed) {l : Loc} (h : l ∈ upToFull (tops tree c.STORE_DIR)) :
    Topmost c tree l :=
  (topmost_iff ht l).mpr (mem_of_mem_upToFull h)

theorem lstat_left {tree : Tree} {ls : List Loc} {l : Loc} {u : Tree} (hu : tree.find l = some u) (h : ∀ k ∈ ls, ¬ k <+: l) :
    ∃ v, lstat id (removeEach ls (some tree)) l = some v ∧ v.label = u.label := by
  have hlabel := label_removeEach h (some tree)
  have hthere : lstat id (some tree) l = some u := hu
  rw [hthere, Option.map_some] at hlabel
  exact Option.map_eq_some_iff.mp hlabel

theorem InSpecial.of_prefix {k l : Loc} (h : InSpecial l) (hk : k <+: l) (hne : k ≠ []) : InSpecial k := by
  obtain ⟨n, k, rfl⟩ := List.exists_cons_of_ne_nil hne
  obtain ⟨j, rfl⟩ := hk
  exact h

/-- Every file stays, the store and the special folders stay and no other folder without a file
    does, exactly if the store is not removed, each such folder is at or below one that can
    be, and of the topmost of these only the last has a folder in it. -/
theorem cleanEmptyFolders_iff (hdir : Go.DirText c.dockerDir) {tree : Tree} (ht : tree.Listed) :
    ∃ left stop, cleanEmptyFolders c.STORE_DIR (some tree) = some (left, stop) ∧
      (CleanedExactly tree left ↔ CleansExactly c tree) := by
  obtain ⟨stop, hrun⟩ := cleanEmptyFolders_eq (c := c) ht
  have hremoved : ∀ k ∈ upToFull (tops tree c.STORE_DIR), Removable c tree k := fun k hk => (topmost_of_mem_upToFull ht hk).1
  have hspecial : ∀ k, Removable c tree k → ¬ InSpecial k := fun k hk hs => by
    obtain ⟨es, hes⟩ := hk.1
    exact not_unguarded hdir (ht.find hes).2 hs hk.2.1
  refine ⟨_, stop, hrun, ?_⟩
  constructor
  · intro h
    refine ⟨fun hstore => ?_, fun l es hl h0 hs hf => ?_, fun l m hl hm hlm => ?_⟩
    · obtain ⟨es, hes⟩ := hstore.1
      have hgo : CanGo (walkedPath c []) tree := (canGo_iff ht rfl).mpr hstore
      have htops : tops tree c.STORE_DIR = [([], tree)] := tops_of_canGo hgo
      obtain ⟨es', hleft⟩ := h.kept [] es hes (Or.inl rfl)
      rw [lstat_removeEach_below (List.prefix_refl []) (by rw [htops]; exact List.mem_cons_self)] at hleft
      cases hleft
    · by_contra hnone
      have hgone := h.gone l es hl h0 hs hf
      obtain ⟨v, hv, _⟩ := lstat_left hl fun k hk hkl => hnone ⟨k, hkl, hremoved k hk⟩
      rw [hv] at hgone
      cases hgone
    · by_contra hfull
      obtain ⟨u, hu⟩ := (topmost_iff ht l).mp hl
      obtain ⟨v, hv⟩ := (topmost_iff ht m).mp hm
      have hbare : isBare (l, u) = false := by
        obtain ⟨hfind, hgo, _⟩ := (mem_tops ht).mp hu
        cases u with
        | file => exact absurd hgo.1 (by simp [Tree.isDir])
        | dir es =>
          cases es with
          | nil => exact absurd hfind hfull
          | cons => rfl
      have hstays := notMem_upToFull (tops_sorted ht _) hu hv hlm hbare
      obtain ⟨es, hes⟩ := hm.1.1
      have hgone := h.gone m es hes (by rintro rfl; exact absurd hlm (List.not_lt_nil l)) (hspecial m hm.1) hm.1.2.2
      obtain ⟨w, hw, _⟩ := lstat_left hes fun k hk hkm => hstays (by rwa [← hm.2 k hkm (hremoved k hk)])
      rw [hw] at hgone
      cases hgone
  · intro h
    refine ⟨fun l data mtime hl => ?_, fun l es hl hs => ?_, fun l es hl h0 hs hf => ?_⟩
    · obtain ⟨v, hv, hlabel⟩ := lstat_left hl fun k hk hkl => (hremoved k hk).2.2 l hkl data mtime hl
      rw [hv]
      cases v <;> simp_all [Tree.label]
    · obtain ⟨v, hv, hlabel⟩ := lstat_left hl fun k hk hkl => by
        by_cases hk0 : k = []
        · exact h.store (hk0 ▸ hremoved k hk)
        · rcases hs with rfl | hs
          · exact hk0 (List.prefix_nil.mp hkl)
          · exact hspecial k (hremoved k hk) (hs.of_prefix hkl hk0)
      rw [hv]
      cases v with
      | file => cases hlabel
      | dir es' => exact ⟨es', rfl⟩
    · obtain ⟨j, hjl, hj⟩ := h.covered l es hl h0 hs hf
      obtain ⟨k, u, hkj, hk⟩ := exists_topmost ht hj
      have hbare : ∀ a ∈ tops tree c.STORE_DIR, ∀ b ∈ tops tree c.STORE_DIR, a.1 < b.1 → isBare a = true := by
        intro a ha b hb hab
        have hdirs := h.bare a.1 b.1 ((topmost_iff ht _).mpr ⟨_, ha⟩) ((topmost_iff ht _).mpr ⟨_, hb⟩) hab
        rw [((mem_tops ht).mp ha).1] at hdirs
        rw [isBare, Option.some.inj hdirs]
        rfl
      exact lstat_removeEach_below (hkj.trans hjl) (mem_upToFull_of_bare (tops_sorted ht _) hbare _ hk) _

end

def plainStore : Tree :=
  .dir [("_big".toList, .dir []), ("a".toList, .dir [("f".toList, .file "hello".toList 0)]), ("b".toList, .dir [])]

theorem plainStore_listed : plainStore.Listed :=
  .cons (by decide) (by decide) .nil (.cons (by decide) (by decide)
    (.cons (by decide) (by decide) (.file _ _) .nil) (.cons (by decide) (by decide) .nil .nil))

theorem cleanEmptyFolders_iff_plain : ∃ left stop,
    cleanEmptyFolders (Config.STORE_DIR {}) (some plainStore) = some (left, stop) ∧ CleanedExactly plainStore left := by
  obtain ⟨left, stop, hrun, hiff⟩ := cleanEmptyFolders_iff (c := {}) (Or.inl rfl) plainStore_listed
  have htops : (tops plainStore (Config.STORE_DIR {})).map Prod.fst = [["b".toList]] := by decide +kernel
  have htop : ∀ l, Topmost {} plainStore l → l = ["b".toList] := fun l hl => by
    obtain ⟨u, hu⟩ := (topmost_iff plainStore_listed l).mp hl
    have hmem := List.mem_map_of_mem (f := Prod.fst) hu
    rwa [htops, List.mem_singleton] at hmem
  refine ⟨left, stop, hrun, hiff.mpr ⟨fun h => h.2.1.2.2 rfl, fun l es hl h0 hs hf => ?_, fun l m hl hm hlm => ?_⟩⟩
  · obtain ⟨n, l, rfl⟩ := List.exists_cons_of_ne_nil h0
    obtain ⟨t, hmem, ht⟩ := Tree.find_cons_eq_some hl
    simp only [List.mem_cons, Prod.mk.injEq, List.not_mem_nil, or_false] at hmem
    rcases hmem with ⟨rfl, rfl⟩ | ⟨rfl, rfl⟩ | ⟨rfl, rfl⟩
    · exact absurd (Or.inl rfl) hs
    · rcases l with _ | ⟨m, l⟩
      · exact absurd rfl (hf ["a".toList, "f".toList] (by decide) "hello".toList 0)
      · obtain ⟨t, hmem, ht⟩ := Tree.find_cons_eq_some ht
        obtain ⟨rfl, rfl⟩ := Prod.mk.inj (List.mem_singleton.mp hmem)
        cases l <;> simp [Tree.find, Tree.entries] at ht
    · rcases l with _ | ⟨m, l⟩
      · exact ⟨_, List.prefix_refl _, ⟨[], rfl⟩, by decide +kernel, hf⟩
      · simp [Tree.find, Tree.entries] at ht
  · rw [htop l hl, htop m hm] at hlm
    exact absurd hlm (lt_irrefl _)

/-- An empty folder behind one with an empty folder in it. -/
def nestedStore : Tree := .dir [("a".toList, .dir [("x".toList, .dir [])]), ("b".toList, .dir [])]

theorem nestedStore_listed : nestedStore.Listed :=
  .cons (by decide) (by decide) (.cons (by decide) (by decide) .nil .nil) (.cons (by decide) (by decide) .nil .nil)

/-- `a` is removed, and the walk ends as it looks for `a/x`. -/
theorem an_empty_folder_stays : ∃ left stop,
    cleanEmptyFolders (Config.STORE_DIR {}) (some nestedStore) = some (left, stop) ∧ ¬ CleanedExactly nestedStore left := by
  obtain ⟨stop, hrun⟩ := cleanEmptyFolders_eq (c := {}) nestedStore_listed
  refine ⟨_, stop, hrun, fun h => ?_⟩
  have hempty : Fileless nestedStore ["b".toList] := (fileless_iff (u := .dir []) rfl .nil).mp rfl
  have hgone := h.gone ["b".toList] [] rfl (by simp) (by simp [InSpecial]) hempty
  have hthere : (lstat id (removeEach (upToFull (tops nestedStore (Config.STORE_DIR {}))) (some nestedStore))
      ["b".toList]).isNone = false := by decide +kernel
  rw [hgone] at hthere
  cases hthere

end GoFastdfs
