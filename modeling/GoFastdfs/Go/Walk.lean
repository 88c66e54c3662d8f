/-
  GoFastdfs.Go.Walk — `filepath.Walk` over a tree that its callback may prune.

  A directory lists its entries by name, in the order `Walk` reads them. `Walk` looks at a
  path, reads the names of a directory, calls its function, and goes on with the names that
  it has read, looking at each: one that has gone meanwhile is an error the function is told
  of. Its function may change what is there, so the walk is given fuel (`walk`).

  Proved: a function that touches nothing but the tree it is called for, and takes that away
  whole or leaves it, is walked to the end by the fuel of one visit for each level
  (`walk_eq_visit`), which is a recursion over the tree that was there at the start
  (`visit`).
-/

import GoFastdfs.Go.Path

namespace GoFastdfs.Go

/-! ## Trees -/

inductive Tree where
  | file (data : Str) (mtime : Int)
  | dir (entries : List (Str × Tree))

namespace Tree

def isDir : Tree → Bool
  | .file _ _ => false
  | .dir _ => true

def entries : Tree → List (Str × Tree)
  | .file _ _ => []
  | .dir es => es

/-- What is at the names `l` below `t`. -/
def find : Tree → List Str → Option Tree
  | t, [] => some t
  | t, n :: l => (t.entries.lookup n).bind fun u => u.find l

def remove : List Str → Tree → Option Tree
  | [], _ => none
  | _ :: _, .file data mtime => some (.file data mtime)
  | n :: l, .dir es => some (.dir (es.filterMap fun e => if e.1 = n then (e.2.remove l).map (e.1, ·) else some e))

/-- The names of each directory are names, in lexical order. -/
inductive Listed : Tree → Prop
  | file (data : Str) (mtime : Int) : Listed (.file data mtime)
  | dir {es : List (Str × Tree)} (sorted : es.Pairwise fun a b => a.1 < b.1)
      (names : ∀ e ∈ es, Name e.1 ∧ e.1 ≠ ['.', '.']) (below : ∀ e ∈ es, Listed e.2) : Listed (.dir es)

mutual

def depth : Tree → Nat
  | .file _ _ => 0
  | .dir es => depthIn es + 1

def depthIn : List (Str × Tree) → Nat
  | [] => 0
  | (_, t) :: es => max t.depth (depthIn es)

end

mutual

def noFile : Tree → Bool
  | .file _ _ => false
  | .dir es => noFileIn es

def noFileIn : List (Str × Tree) → Bool
  | [] => true
  | (_, t) :: es => t.noFile && noFileIn es

end

theorem induct {P : Tree → Prop} (file : ∀ data mtime, P (.file data mtime))
    (dir : ∀ es, (∀ e ∈ es, P e.2) → P (.dir es)) : ∀ t, P t
  | .file data mtime => file data mtime
  | .dir es => dir es fun e _ => induct file dir e.2
decreasing_by
  have hes := List.sizeOf_lt_of_mem ‹e ∈ es›
  have he : sizeOf e.2 < sizeOf e := by
    cases e
    simp only [Prod.mk.sizeOf_spec]
    omega
  simp only [Tree.dir.sizeOf_spec]
  omega

end Tree

/-! ## `filepath.Walk` -/

inductive Stop where
  | skipDir
  | err
  deriving DecidableEq, Repr

section
variable {σ : Type} (view : σ → Option Tree) (fn : Str → List Str → Option Tree → σ → σ × Option Stop)

def lstat (s : σ) (l : List Str) : Option Tree := (view s).bind fun t => t.find l

def walkNames (walk : Str → List Str → Tree → σ → Option (σ × Option Stop)) (path : Str) (l : List Str) :
    List Str → σ → Option (σ × Option Stop)
  | [], s => some (s, none)
  | n :: ns, s =>
    match lstat view s (l ++ [n]) with
    | none =>
      match fn (join path n) (l ++ [n]) none s with
      | (s, some .err) => some (s, some .err)
      | (s, _) => walkNames walk path l ns s
    | some info =>
      match walk (join path n) (l ++ [n]) info s with
      | none => none
      | some (s, none) => walkNames walk path l ns s
      | some (s, some stop) =>
        if info.isDir = false ∨ stop ≠ .skipDir then some (s, some stop) else walkNames walk path l ns s

/-- `walk` of `filepath`: `info` is what is there, with the names that are read before the
    call. -/
def walkAt : Nat → Str → List Str → Tree → σ → Option (σ × Option Stop)
  | 0, _, _, _, _ => none
  | fuel + 1, path, l, info, s =>
    match fn path l (some info) s with
    | (s, some stop) => some (s, some stop)
    | (s, none) => walkNames view fn (walkAt fuel) path l (info.entries.map Prod.fst) s

def skipped {σ : Type} : σ × Option Stop → σ × Option Stop
  | (s, some .skipDir) => (s, none)
  | r => r

/-- `filepath.Walk`, with the fuel for the levels that are there. -/
def filepathWalk (path : Str) (l : List Str) (s : σ) : Option (σ × Option Stop) :=
  match lstat view s l with
  | none => some (skipped (fn path l none s))
  | some info => (walkAt view fn (info.depth + 1) path l info s).map skipped

/-! ## The tree that was there -/

mutual

/-- The walk, by the tree that was there at the start. -/
def visit : Tree → Str → List Str → σ → σ × Option Stop
  | .file data mtime, path, l, s => fn path l (some (.file data mtime)) s
  | .dir es, path, l, s =>
    match fn path l (some (.dir es)) s with
    | (s, some stop) => (s, some stop)
    | (s, none) => visitAll es path l s

def visitAll : List (Str × Tree) → Str → List Str → σ → σ × Option Stop
  | [], _, _, s => (s, none)
  | (n, t) :: es, path, l, s =>
    match lstat view s (l ++ [n]) with
    | none =>
      match fn (join path n) (l ++ [n]) none s with
      | (s, some .err) => (s, some .err)
      | (s, _) => visitAll es path l s
    | some _ =>
      match visit t (join path n) (l ++ [n]) s with
      | (s, none) => visitAll es path l s
      | (s, some stop) => if t.isDir = false ∨ stop ≠ .skipDir then (s, some stop) else visitAll es path l s

end

/-- Neither is on the way to the other. -/
def Apart (k l : List Str) : Prop := ¬ k <+: l ∧ ¬ l <+: k

/-- The function changes nothing but the tree it is called for, and takes that away whole or
    leaves it. -/
structure Prunes : Prop where
  apart : ∀ path l info s k, Apart k l → lstat view (fn path l info s).1 k = lstat view s k
  own : ∀ path l info s, lstat view (fn path l info s).1 l = lstat view s l ∨ lstat view (fn path l info s).1 l = none

end

/-! ## Looking into a tree -/

namespace Tree

theorem find_append : ∀ (l : List Str) (t : Tree) (k : List Str), t.find (l ++ k) = (t.find l).bind fun u => u.find k
  | [], _, _ => rfl
  | n :: l, t, k => by
    simp only [List.cons_append, find, Option.bind_assoc, find_append l]

theorem find_single (t : Tree) (n : Str) : t.find [n] = t.entries.lookup n := by
  simp [find]

theorem remove_eq_none {t : Tree} {l : List Str} : t.remove l = none ↔ l = [] := by
  rcases l with _ | ⟨n, l⟩
  · simp [remove]
  · cases t <;> simp [remove]

theorem lookup_remove (n m : Str) (l : List Str) : ∀ es : List (Str × Tree),
    (es.filterMap fun e => if e.1 = n then (e.2.remove l).map (e.1, ·) else some e).lookup m =
      if m = n then (es.lookup n).bind fun u => u.remove l else es.lookup m
  | [] => by simp
  | (a, t) :: es => by
    have ih := lookup_remove n m l es
    by_cases ha : a = n
    · subst ha
      cases ht : t.remove l with
      | none =>
        obtain rfl := remove_eq_none.mp ht
        rw [List.filterMap_cons_none (by simp [ht]), ih]
        split
        · rename_i hm
          simp [remove]
        · rename_i hm
          rw [List.lookup_cons, beq_eq_false_iff_ne.mpr hm]
      | some u =>
        rw [List.filterMap_cons_some (b := (a, u)) (by simp [ht])]
        by_cases hm : m = a
        · subst hm
          simp [ht]
        · simp only [List.lookup_cons, beq_eq_false_iff_ne.mpr hm, ih, if_neg hm]
    · rw [List.filterMap_cons_some (b := (a, t)) (by simp [ha])]
      by_cases hm : m = a
      · subst hm
        simp [ha]
      · simp only [List.lookup_cons, beq_eq_false_iff_ne.mpr hm, ih, beq_eq_false_iff_ne.mpr (Ne.symm ha)]

theorem find_remove_cons (t : Tree) (n m : Str) (l k : List Str) : ((t.remove (n :: l)).bind fun u => u.find (m :: k)) =
    if m = n then (t.entries.lookup n).bind fun u => (u.remove l).bind fun v => v.find k else t.find (m :: k) := by
  cases t with
  | file data mtime => simp [remove, find, entries]
  | dir es =>
    simp only [remove, Option.bind_some, find, entries, lookup_remove]
    split
    · rw [Option.bind_assoc]
    · rfl

/-- Nothing is left at a place that was removed, nor below it. -/
theorem find_remove_below : ∀ {l k : List Str}, l <+: k → ∀ t : Tree, ((t.remove l).bind fun u => u.find k) = none
  | [], _, _, _ => rfl
  | n :: l, [], h, _ => by simp at h
  | n :: l, m :: k, h, t => by
    obtain ⟨rfl, hl⟩ := List.cons_prefix_cons.mp h
    simp [find_remove_cons, find_remove_below hl]

theorem find_remove_apart : ∀ {l k : List Str}, Apart k l → ∀ t : Tree, ((t.remove l).bind fun u => u.find k) = t.find k
  | [], _, h, _ => absurd List.nil_prefix h.2
  | n :: l, [], h, _ => absurd List.nil_prefix h.1
  | n :: l, m :: k, h, t => by
    rw [find_remove_cons]
    split
    · rename_i e
      subst e
      have hl : Apart k l := by simpa [Apart, List.cons_prefix_cons] using h
      simp only [find_remove_apart hl, find]
    · rfl

/-- The bytes and the time of a file; nothing of a directory. -/
def label : Tree → Option (Str × Int)
  | .file data mtime => some (data, mtime)
  | .dir _ => none

/-- What is not below the place removed is there as it was, though a directory may have lost
    what was below it. -/
theorem label_remove : ∀ {l k : List Str}, ¬ l <+: k → ∀ t : Tree,
    ((t.remove l).bind fun u => u.find k).map label = (t.find k).map label
  | [], _, h, _ => absurd List.nil_prefix h
  | n :: l, [], _, t => by
    cases t <;> simp [remove, find, label]
  | n :: l, m :: k, h, t => by
    rw [find_remove_cons]
    split
    · rename_i e
      subst e
      have hl : ¬ l <+: k := by simpa [List.cons_prefix_cons] using h
      simp only [find]
      cases t.entries.lookup m with
      | none => rfl
      | some u => exact label_remove hl u
    · rfl

/-! ## The entries of a directory -/

theorem Listed.nil : (Tree.dir []).Listed := .dir .nil (by simp) (by simp)

theorem Listed.cons {n : Str} {t : Tree} {es : List (Str × Tree)} (hn : Name n ∧ n ≠ ['.', '.']) (hlt : ∀ e ∈ es, n < e.1)
    (ht : t.Listed) (hes : (Tree.dir es).Listed) : (Tree.dir ((n, t) :: es)).Listed := by
  cases hes with
  | dir hsorted hnames hbelow =>
    exact .dir (.cons hlt hsorted) (List.forall_mem_cons.mpr ⟨hn, hnames⟩) (List.forall_mem_cons.mpr ⟨ht, hbelow⟩)

theorem Listed.lookup {es : List (Str × Tree)} (h : es.Pairwise fun a b => a.1 < b.1) {e : Str × Tree} (he : e ∈ es) :
    es.lookup e.1 = some e.2 := by
  induction h with
  | nil => cases he
  | @cons a es ha _ ih =>
    rcases List.mem_cons.mp he with rfl | he
    · exact List.lookup_cons_self
    · have hne : e.1 ≠ a.1 := fun e' => absurd (ha e he) (by rw [e']; exact lt_irrefl _)
      rw [List.lookup_cons, beq_eq_false_iff_ne.mpr hne]
      exact ih he

theorem Listed.find_cons {es : List (Str × Tree)} (h : es.Pairwise fun a b => a.1 < b.1) {e : Str × Tree} (he : e ∈ es)
    (l : List Str) : (Tree.dir es).find (e.1 :: l) = e.2.find l := by
  rw [find, entries, Listed.lookup h he, Option.bind_some]

theorem mem_of_lookup {es : List (Str × Tree)} {n : Str} {t : Tree} (h : es.lookup n = some t) : (n, t) ∈ es := by
  obtain ⟨es', es'', rfl, _⟩ := List.lookup_eq_some_iff.mp h
  simp

theorem find_cons_eq_some {es : List (Str × Tree)} {n : Str} {l : List Str} {u : Tree}
    (h : (Tree.dir es).find (n :: l) = some u) : ∃ t, (n, t) ∈ es ∧ t.find l = some u := by
  obtain ⟨t, ht, hu⟩ := Option.bind_eq_some_iff.mp h
  exact ⟨t, mem_of_lookup ht, hu⟩

theorem Listed.find : ∀ {l : List Str} {t u : Tree}, t.Listed → t.find l = some u →
    u.Listed ∧ ∀ n ∈ l, Name n ∧ n ≠ ['.', '.']
  | [], t, u, ht, h => by
    obtain rfl := Option.some.inj h
    exact ⟨ht, by simp⟩
  | n :: l, .file data mtime, u, _, h => by simp [Tree.find, entries] at h
  | n :: l, .dir es, u, ht, h => by
    obtain ⟨t, hmem, hu⟩ := find_cons_eq_some h
    cases ht with
    | dir _ hnames hbelow =>
      obtain ⟨hlisted, hl⟩ := Listed.find (hbelow _ hmem) hu
      exact ⟨hlisted, List.forall_mem_cons.mpr ⟨hnames _ hmem, hl⟩⟩

theorem noFileIn_iff : ∀ {es : List (Str × Tree)}, noFileIn es = true ↔ ∀ e ∈ es, e.2.noFile = true
  | [] => by simp [noFileIn]
  | (n, t) :: es => by
    have ih := @noFileIn_iff es
    simp [noFileIn, ih]

theorem Listed.noFile_iff {t : Tree} (ht : t.Listed) :
    t.noFile = true ↔ ∀ l data mtime, t.find l ≠ some (.file data mtime) := by
  induction t using Tree.induct with
  | file data mtime => exact iff_of_false (by simp [noFile]) fun h => h [] data mtime rfl
  | dir es ih =>
    cases ht with
    | dir hsorted _ hbelow =>
      rw [noFile, noFileIn_iff]
      constructor
      · intro h l data mtime hl
        rcases l with _ | ⟨n, l⟩
        · cases hl
        · obtain ⟨t, ht, hl⟩ := find_cons_eq_some hl
          exact (ih _ ht (hbelow _ ht)).mp (h _ ht) l data mtime hl
      · intro h e he
        refine (ih e he (hbelow e he)).mpr fun l data mtime hl => h (e.1 :: l) data mtime ?_
        rw [Listed.find_cons hsorted he, hl]

end Tree

/-! ## The walk -/

section
variable {σ : Type} {view : σ → Option Tree} {fn : Str → List Str → Option Tree → σ → σ × Option Stop}

theorem Apart.append {k l : List Str} (h : Apart k l) (n : Str) : Apart k (l ++ [n]) := by
  refine ⟨fun hk => ?_, fun hl => h.2 ((List.prefix_append l [n]).trans hl)⟩
  rcases List.prefix_concat_iff.mp hk with e | hk
  · exact h.2 (e ▸ List.prefix_append l [n])
  · exact h.1 hk

theorem apart_of_ne {l : List Str} {n m : Str} (h : n ≠ m) : Apart (l ++ [n]) (l ++ [m]) := by
  simp [Apart, List.prefix_append_right_inj, h, Ne.symm h]

theorem lstat_append {s : σ} {l : List Str} {t : Tree} (h : lstat view s l = some t) (k : List Str) :
    lstat view s (l ++ k) = t.find k := by
  obtain ⟨u, hu, hl⟩ := Option.bind_eq_some_iff.mp h
  simp [lstat, hu, Tree.find_append, hl]

theorem lstat_append_none {s : σ} {l : List Str} (h : lstat view s l = none) (k : List Str) :
    lstat view s (l ++ k) = none := by
  simp only [lstat, Tree.find_append] at h ⊢
  rw [← Option.bind_assoc, h, Option.bind_none]

theorem lstat_remove_below {l k : List Str} (h : l <+: k) (tree : Option Tree) :
    lstat id (tree.bind fun u => u.remove l) k = none := by
  cases tree with
  | none => rfl
  | some u => exact Tree.find_remove_below h u

theorem lstat_remove_apart {l k : List Str} (h : Apart k l) (tree : Option Tree) :
    lstat id (tree.bind fun u => u.remove l) k = lstat id tree k := by
  cases tree with
  | none => rfl
  | some u => exact Tree.find_remove_apart h u

theorem label_lstat_remove {l k : List Str} (h : ¬ l <+: k) (tree : Option Tree) :
    (lstat id (tree.bind fun u => u.remove l) k).map Tree.label = (lstat id tree k).map Tree.label := by
  cases tree with
  | none => rfl
  | some u => exact Tree.label_remove h u

theorem lstat_entry {s : σ} {l : List Str} {es : List (Str × Tree)} (h : lstat view s l = some (.dir es))
    (hsorted : es.Pairwise fun a b => a.1 < b.1) {e : Str × Tree} (he : e ∈ es) : lstat view s (l ++ [e.1]) = some e.2 := by
  rw [lstat_append h, Tree.find_single]
  exact Tree.Listed.lookup hsorted he

theorem visitAll_apart (hfn : Prunes view fn) {k : List Str} : ∀ {es : List (Str × Tree)} {l : List Str},
    (∀ e ∈ es, ∀ path s, lstat view (visit view fn e.2 path (l ++ [e.1]) s).1 k = lstat view s k) →
    (∀ e ∈ es, Apart k (l ++ [e.1])) → ∀ path s, lstat view (visitAll view fn es path l s).1 k = lstat view s k
  | [], _, _, _, _, _ => rfl
  | (n, t) :: es, l, hes, hk, path, s => by
    have hrest := fun s => visitAll_apart hfn (fun e he => hes e (List.mem_cons_of_mem _ he))
      (fun e he => hk e (List.mem_cons_of_mem _ he)) path s
    have hcall := hfn.apart (join path n) (l ++ [n]) none s k (hk _ List.mem_cons_self)
    have hvisit := hes _ List.mem_cons_self (join path n) s
    rw [visitAll]
    split
    · split
      · rename_i he
        rwa [he] at hcall
      · rename_i he
        rw [hrest, ← hcall, he]
    · split
      · rename_i he
        rw [hrest, ← hvisit, he]
      · rename_i he
        split
        · rwa [he] at hvisit
        · rw [hrest, ← hvisit, he]

theorem visit_apart (hfn : Prunes view fn) (t : Tree) : ∀ (path : Str) (l : List Str) (s : σ) (k : List Str),
    Apart k l → lstat view (visit view fn t path l s).1 k = lstat view s k := by
  induction t using Tree.induct with
  | file data mtime =>
    intro path l s k hk
    exact hfn.apart path l _ s k hk
  | dir es ih =>
    intro path l s k hk
    have hcall := hfn.apart path l (some (.dir es)) s k hk
    rw [visit]
    split
    · rename_i he
      rwa [he] at hcall
    · rename_i he
      rw [visitAll_apart hfn (fun e he path s => ih e he path _ s k (hk.append _)) fun e _ => hk.append _, ← hcall, he]

/-- The names read are visited where they still are, one by one, or have all gone. -/
theorem walkNames_eq (hfn : Prunes view fn) {walk : Str → List Str → Tree → σ → Option (σ × Option Stop)} {path : Str}
    {l : List Str} : ∀ {es : List (Str × Tree)}, (es.Pairwise fun a b => a.1 < b.1) →
    (∀ e ∈ es, ∀ path l s, lstat view s l = some e.2 → walk path l e.2 s = some (visit view fn e.2 path l s)) → ∀ s,
    ((∀ e ∈ es, lstat view s (l ++ [e.1]) = some e.2) ∨ ∀ e ∈ es, lstat view s (l ++ [e.1]) = none) →
    walkNames view fn walk path l (es.map Prod.fst) s = some (visitAll view fn es path l s)
  | [], _, _, _, _ => rfl
  | (n, t) :: es, hsorted, hwalk, s, hthere => by
    obtain ⟨hn, hsorted⟩ := List.pairwise_cons.mp hsorted
    -- what is done for `n` leaves the other names as they are
    have hrest : ∀ s', (∀ e ∈ es, lstat view s' (l ++ [e.1]) = lstat view s (l ++ [e.1])) →
        walkNames view fn walk path l (es.map Prod.fst) s' = some (visitAll view fn es path l s') := fun s' hsame =>
      walkNames_eq hfn hsorted (fun e he => hwalk e (List.mem_cons_of_mem _ he)) s' <| hthere.imp
        (fun h e he => (hsame e he).trans (h e (List.mem_cons_of_mem _ he)))
        (fun h e he => (hsame e he).trans (h e (List.mem_cons_of_mem _ he)))
    have happart : ∀ e ∈ es, Apart (l ++ [e.1]) (l ++ [n]) := fun e he => apart_of_ne (hn e he).ne'
    rw [List.map_cons, walkNames, visitAll]
    rcases hthere with hthere | hthere
    · have hlstat : lstat view s (l ++ [n]) = some t := hthere _ List.mem_cons_self
      have hframe := fun e he => visit_apart hfn t (join path n) (l ++ [n]) s _ (happart e he)
      simp only [hlstat, hwalk _ List.mem_cons_self _ _ _ hlstat]
      rcases hv : visit view fn t (join path n) (l ++ [n]) s with ⟨s', _ | stop⟩
      · rw [hv] at hframe
        exact hrest s' hframe
      · rw [hv] at hframe
        dsimp only
        split
        · rfl
        · exact hrest s' hframe
    · have hlstat : lstat view s (l ++ [n]) = none := hthere _ List.mem_cons_self
      have hframe := fun e he => hfn.apart (join path n) (l ++ [n]) none s _ (happart e he)
      simp only [hlstat]
      rcases hc : fn (join path n) (l ++ [n]) none s with ⟨s', _ | _ | _⟩
      · rw [hc] at hframe
        exact hrest s' hframe
      · rw [hc] at hframe
        exact hrest s' hframe
      · rfl

theorem lt_depthIn {n : Nat} : ∀ {es : List (Str × Tree)}, Tree.depthIn es < n → ∀ e ∈ es, e.2.depth < n
  | (_, t) :: es, h, e, he => by
    simp only [Tree.depthIn, max_lt_iff] at h
    rcases List.mem_cons.mp he with rfl | he
    · exact h.1
    · exact lt_depthIn h.2 e he

/-- Fuel for each level is enough, and what is walked is what was there. -/
theorem walkAt_eq (hfn : Prunes view fn) {t : Tree} (ht : t.Listed) : ∀ (fuel : Nat), t.depth < fuel →
    ∀ (path : Str) (l : List Str) (s : σ), lstat view s l = some t →
      walkAt view fn fuel path l t s = some (visit view fn t path l s) := by
  induction t using Tree.induct with
  | file data mtime =>
    intro fuel hfuel path l s _
    obtain ⟨n, rfl⟩ : ∃ n, fuel = n + 1 := ⟨fuel - 1, by omega⟩
    rw [walkAt, visit]
    rcases fn path l (some (.file data mtime)) s with ⟨s', _ | stop⟩ <;> rfl
  | dir es ih =>
    intro fuel hfuel path l s hs
    obtain ⟨n, rfl⟩ : ∃ n, fuel = n + 1 := ⟨fuel - 1, by omega⟩
    cases ht with
    | dir hsorted _ hbelow =>
      have hdepth : ∀ e ∈ es, e.2.depth < n := lt_depthIn (by simp only [Tree.depth] at hfuel; omega)
      have hown := hfn.own path l (some (.dir es)) s
      rw [walkAt, visit]
      rcases hc : fn path l (some (.dir es)) s with ⟨s', _ | stop⟩
      · rw [hc] at hown
        refine walkNames_eq hfn hsorted (fun e he => ih e he (hbelow e he) n (hdepth e he)) s' ?_
        rcases hown with hown | hown
        · exact Or.inl fun e he => lstat_entry (hown.trans hs) hsorted he
        · exact Or.inr fun e _ => lstat_append_none hown _
      · rfl

theorem filepathWalk_eq (hfn : Prunes view fn) {t : Tree} (ht : t.Listed) {l : List Str} {s : σ} (hs : lstat view s l = some t)
    (path : Str) : filepathWalk view fn path l s = some (skipped (visit view fn t path l s)) := by
  simp only [filepathWalk, hs, walkAt_eq hfn ht _ (Nat.lt_succ_self _) path l s hs, Option.map_some]

end

end GoFastdfs.Go
