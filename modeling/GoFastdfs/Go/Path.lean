/-
  GoFastdfs.Go.Path — lexical paths: what `path.Clean` keeps of a text, and when one path
  lies below another.

  A text is read element by element on the elements kept so far, innermost first. Read
  from any directory it climbs a number of directories and then goes down a list of names
  (`walk_eq`): the number and the names are the text's own (`relClean`).

  Proved: for a directory written with its `/`, a path that continues it lies below one
  of its entries exactly if the names gone down after climbing are those climbed out of,
  then the entry, then more (`below_entry_iff`).
-/

import GoFastdfs.Go.Text

namespace GoFastdfs.Go

/-! ## Elements -/

def rooted (s : Str) : Bool := s.head? == some '/'

/-- Reading the elements of `s` on those kept. -/
def walk (root : Bool) (kept : List Str) (s : Str) : List Str := (s.splitOn '/').foldl (cleanStep root) kept

def kept (s : Str) : List Str := walk (rooted s) [] s

/-- `p`, cleaned, lies strictly below `dir`, cleaned. -/
def Below (dir p : Str) : Prop := pathClean dir ++ ['/'] <+: pathClean p

def Inside (dir p : Str) : Prop := pathClean p = pathClean dir ∨ Below dir p

instance (dir p : Str) : Decidable (Below dir p) := inferInstanceAs (Decidable (_ <+: _))

instance (dir p : Str) : Decidable (Inside dir p) := inferInstanceAs (Decidable (_ ∨ _))

theorem pathClean_eq (s : Str) :
    pathClean s =
      if rooted s then '/' :: ['/'].intercalate (kept s).reverse
      else if kept s = [] then ['.'] else ['/'].intercalate (kept s).reverse := by
  have hnil : (kept s).reverse = [] ↔ kept s = [] := List.reverse_eq_nil_iff
  simp only [← hnil]
  rfl

theorem notMem_of_mem_splitOn {c : Char} {s e : Str} (h : e ∈ s.splitOn c) : c ∉ e := by
  induction s generalizing e with
  | nil =>
    rw [List.splitOn_nil, List.mem_singleton] at h
    subst h
    exact List.not_mem_nil
  | cons x s ih =>
    rw [List.splitOn_cons_eq_if_modifyHead] at h
    split at h
    · rcases List.mem_cons.mp h with rfl | h
      · exact List.not_mem_nil
      · exact ih h
    · rename_i hx
      rcases hs : s.splitOn c with _ | ⟨a, l⟩
      · exact absurd hs (List.splitOn_ne_nil c s)
      · rw [hs] at h ih
        rcases List.mem_cons.mp h with rfl | h
        · have hxc : x ≠ c := by simpa using hx
          simp only [List.mem_cons, not_or]
          exact ⟨Ne.symm hxc, ih List.mem_cons_self⟩
        · exact ih (List.mem_cons_of_mem _ h)

structure Name (e : Str) : Prop where
  ne_nil : e ≠ []
  ne_dot : e ≠ ['.']
  slash : '/' ∉ e

instance (e : Str) : Decidable (Name e) :=
  decidable_of_iff (e ≠ [] ∧ e ≠ ['.'] ∧ '/' ∉ e) ⟨fun h => ⟨h.1, h.2.1, h.2.2⟩, fun h => ⟨h.ne_nil, h.ne_dot, h.slash⟩⟩

theorem mem_cleanStep {root : Bool} {k : List Str} {e x : Str} (hs : '/' ∉ e) (h : x ∈ cleanStep root k e) :
    x ∈ k ∨ Name x := by
  unfold cleanStep at h
  split at h
  · exact Or.inl h
  rename_i he
  have hname : Name e := ⟨fun e0 => he (Or.inl e0), fun e0 => he (Or.inr e0), hs⟩
  split at h
  · cases k with
    | nil =>
      dsimp only at h
      split at h
      · cases h
      · exact Or.inr (List.mem_singleton.mp h ▸ hname)
    | cons a ks =>
      dsimp only at h
      split at h
      · rcases List.mem_cons.mp h with h | h
        · exact Or.inr (h ▸ hname)
        · exact Or.inl h
      · exact Or.inl (List.mem_cons_of_mem _ h)
  · rcases List.mem_cons.mp h with h | h
    · exact Or.inr (h ▸ hname)
    · exact Or.inl h

theorem mem_kept {s e : Str} (h : e ∈ kept s) : Name e := by
  have hfold : ∀ (es k : List Str), (∀ x ∈ es, '/' ∉ x) → (∀ x ∈ k, Name x) →
      ∀ x ∈ es.foldl (cleanStep (rooted s)) k, Name x := by
    intro es
    induction es with
    | nil => intro k _ hk; exact hk
    | cons a es ih =>
      intro k hes hk
      apply ih _ fun x hx => hes x (List.mem_cons_of_mem _ hx)
      intro x hx
      rcases mem_cleanStep (hes a List.mem_cons_self) hx with hx | hx
      · exact hk x hx
      · exact hx
  exact hfold _ [] (fun x hx => notMem_of_mem_splitOn hx) (fun x hx => absurd hx List.not_mem_nil) e h

theorem intercalate_isPrefix_iff {A : List Str} (hA : A ≠ []) (hs : ∀ e ∈ A, '/' ∉ e) (s : Str) :
    ['/'].intercalate A ++ ['/'] <+: s ↔ ∃ y, y ≠ [] ∧ s.splitOn '/' = A ++ y := by
  constructor
  · intro h
    obtain ⟨t, rfl⟩ := h
    refine ⟨t.splitOn '/', List.splitOn_ne_nil _ _, ?_⟩
    rw [List.append_assoc, List.singleton_append, List.splitOn_append_cons_self, List.splitOn_intercalate _ hs hA]
  · intro h
    obtain ⟨y, hy, he⟩ := h
    have hys : ∀ e ∈ y, '/' ∉ e := fun e hm => notMem_of_mem_splitOn (s := s) (by rw [he]; exact List.mem_append_right _ hm)
    have hcat : (['/'].intercalate A ++ '/' :: ['/'].intercalate y).splitOn '/' = A ++ y := by
      rw [List.splitOn_append_cons_self, List.splitOn_intercalate _ hs hA, List.splitOn_intercalate _ hys hy]
    refine ⟨['/'].intercalate y, ?_⟩
    have hjoin : ['/'].intercalate (s.splitOn '/') = s := List.intercalate_splitOn '/'
    rw [← hjoin, he, ← hcat, List.intercalate_splitOn]
    simp

theorem splitOn_pathClean (s : Str) :
    (pathClean s).splitOn '/' = (if rooted s then [[]] else []) ++
      (if kept s = [] then [if rooted s then [] else ['.']] else (kept s).reverse) := by
  have hs : ∀ e ∈ (kept s).reverse, '/' ∉ e := fun e he => (mem_kept (List.mem_reverse.mp he)).slash
  have hroot : ∀ t : Str, ('/' :: t).splitOn '/' = [] :: t.splitOn '/' := fun t =>
    List.splitOn_append_cons_self [] t
  rw [pathClean_eq]
  by_cases hk : kept s = []
  · cases hr : rooted s <;> simp [hk] <;> rfl
  · have hne : (kept s).reverse ≠ [] := fun e => hk (List.reverse_eq_nil_iff.mp e)
    cases hr : rooted s
    · simp only [Bool.false_eq_true, if_false, hk, List.nil_append]
      exact List.splitOn_intercalate _ hs hne
    · simp only [if_true, hk, if_false]
      rw [hroot, List.splitOn_intercalate _ hs hne]
      rfl

/-- A cleaned path continues another exactly if what is kept of it does. -/
theorem splitOn_pathClean_iff {dir : Str} (hdir : kept dir ≠ []) (p : Str) (y : List Str) :
    (pathClean p).splitOn '/' = (pathClean dir).splitOn '/' ++ y ↔
      rooted dir = rooted p ∧ kept p = y.reverse ++ kept dir := by
  have hne : (kept dir).reverse ≠ [] := fun e => hdir (List.reverse_eq_nil_iff.mp e)
  obtain ⟨a, A, hA⟩ := List.exists_cons_of_ne_nil hne
  have ha : Name a := mem_kept (List.mem_reverse.mp (by rw [hA]; exact List.mem_cons_self))
  rw [splitOn_pathClean p, splitOn_pathClean dir, if_neg hdir]
  constructor
  · intro he
    by_cases hp : kept p = []
    · -- a path without elements is cleaned to `/` or `.`
      rw [if_pos hp, hA] at he
      cases hr : rooted p <;> cases hd : rooted dir <;> rw [hr, hd] at he <;> simp at he
      · exact absurd he.1.symm ha.ne_dot
      · exact absurd he.1 ha.ne_nil
      · exact absurd he.1 ha.ne_nil
    obtain ⟨b, B, hB⟩ := List.exists_cons_of_ne_nil (fun e => hp (List.reverse_eq_nil_iff.mp e) : (kept p).reverse ≠ [])
    have hb : Name b := mem_kept (List.mem_reverse.mp (by rw [hB]; exact List.mem_cons_self))
    rw [if_neg hp] at he
    have hr : rooted dir = rooted p := by
      -- the first element of a path without a root is a name
      rw [hA, hB] at he
      cases hr : rooted p <;> cases hd : rooted dir <;> rw [hr, hd] at he <;> simp at he
      · exact absurd he.1 hb.ne_nil
      · exact absurd he.1 ha.ne_nil
    rw [hr, List.append_assoc] at he
    have := congrArg List.reverse (List.append_cancel_left he)
    exact ⟨hr, by simpa using this⟩
  · intro h
    obtain ⟨hr, he⟩ := h
    have hp : kept p ≠ [] := by rw [he]; simp [hdir]
    rw [if_neg hp, hr, he]
    simp

/-- Lying below is a matter of the elements kept. -/
theorem below_iff {dir : Str} (hdir : kept dir ≠ []) (p : Str) :
    Below dir p ↔ rooted dir = rooted p ∧ ∃ y, y ≠ [] ∧ kept p = y ++ kept dir := by
  have hpre : Below dir p ↔ ∃ y, y ≠ [] ∧ (pathClean p).splitOn '/' = (pathClean dir).splitOn '/' ++ y := by
    unfold Below
    rw [← intercalate_isPrefix_iff (List.splitOn_ne_nil _ _) (fun e he => notMem_of_mem_splitOn he),
      List.intercalate_splitOn]
  rw [hpre]
  constructor
  · intro h
    obtain ⟨y, hy, he⟩ := h
    obtain ⟨hr, hk⟩ := (splitOn_pathClean_iff hdir p y).mp he
    exact ⟨hr, y.reverse, fun e => hy (List.reverse_eq_nil_iff.mp e), hk⟩
  · intro h
    obtain ⟨hr, y, hy, hk⟩ := h
    refine ⟨y.reverse, fun e => hy (List.reverse_eq_nil_iff.mp e), (splitOn_pathClean_iff hdir p _).mpr ⟨hr, ?_⟩⟩
    rw [List.reverse_reverse, hk]

theorem inside_iff {dir : Str} (hdir : kept dir ≠ []) (p : Str) :
    Inside dir p ↔ rooted dir = rooted p ∧ ∃ y, kept p = y ++ kept dir := by
  have hsame : pathClean p = pathClean dir ↔ rooted dir = rooted p ∧ kept p = kept dir := by
    have h := splitOn_pathClean_iff hdir p []
    rw [List.append_nil] at h
    rw [← List.nil_append (kept dir), ← List.reverse_nil, ← h]
    constructor
    · intro e
      rw [e]
    · intro e
      have hjoin : ['/'].intercalate ((pathClean p).splitOn '/') = pathClean p := List.intercalate_splitOn '/'
      rw [← hjoin, e, List.intercalate_splitOn]
  unfold Inside
  rw [hsame, below_iff hdir]
  constructor
  · intro h
    rcases h with ⟨hr, hk⟩ | ⟨hr, y, _, hk⟩
    · exact ⟨hr, [], by rw [hk]; rfl⟩
    · exact ⟨hr, y, hk⟩
  · intro h
    obtain ⟨hr, y, hk⟩ := h
    by_cases hy : y = []
    · subst hy
      exact Or.inl ⟨hr, hk⟩
    · exact Or.inr ⟨hr, y, hy, hk⟩

/-! ## Climbing and going down -/

/-- Where a text leads from any directory: up a number of directories, then down these
    names, innermost first. -/
structure Descent where
  up : Nat
  names : List Str
  deriving DecidableEq

def relStep (r : Descent) (e : Str) : Descent :=
  if e = [] ∨ e = ['.'] then r
  else if e = ['.', '.'] then
    match r.names with
    | [] => ⟨r.up + 1, []⟩
    | _ :: names => ⟨r.up, names⟩
  else ⟨r.up, e :: r.names⟩

def relClean (s : Str) : Descent := (s.splitOn '/').foldl relStep ⟨0, []⟩

def climb (root : Bool) (k : List Str) : Nat → List Str
  | 0 => k
  | n + 1 => cleanStep root (climb root k n) ['.', '.']

section
variable {root : Bool} {k : List Str} {e : Str}

theorem cleanStep_skip (h : e = [] ∨ e = ['.']) : cleanStep root k e = k := by
  unfold cleanStep
  rw [if_pos h]

theorem cleanStep_name (h0 : ¬ (e = [] ∨ e = ['.'])) (h2 : e ≠ ['.', '.']) : cleanStep root k e = e :: k := by
  unfold cleanStep
  rw [if_neg h0, if_neg h2]

theorem cleanStep_up {a : Str} (h : a ≠ ['.', '.']) : cleanStep root (a :: k) ['.', '.'] = k := by
  unfold cleanStep
  rw [if_neg (by decide), if_pos rfl]
  exact if_neg h

theorem cleanStep_eq {r : Descent} (h : ['.', '.'] ∉ r.names) (e : Str) :
    cleanStep root (r.names ++ climb root k r.up) e = (relStep r e).names ++ climb root k (relStep r e).up ∧
      ['.', '.'] ∉ (relStep r e).names := by
  by_cases h0 : e = [] ∨ e = ['.']
  · have hr : relStep r e = r := if_pos h0
    rw [hr, cleanStep_skip h0]
    exact ⟨rfl, h⟩
  by_cases h2 : e = ['.', '.']
  · subst h2
    obtain ⟨up, names⟩ := r
    cases names with
    | nil => exact ⟨rfl, List.not_mem_nil⟩
    | cons a names =>
      simp only [List.mem_cons, not_or] at h
      exact ⟨cleanStep_up (Ne.symm h.1), h.2⟩
  · have hr : relStep r e = ⟨r.up, e :: r.names⟩ := by rw [relStep, if_neg h0, if_neg h2]
    rw [hr, cleanStep_name h0 h2]
    refine ⟨rfl, ?_⟩
    simp only [List.mem_cons, not_or]
    exact ⟨Ne.symm h2, h⟩

end

theorem foldl_cleanStep_eq (root : Bool) (k : List Str) (es : List Str) :
    ∀ r : Descent, ['.', '.'] ∉ r.names →
      es.foldl (cleanStep root) (r.names ++ climb root k r.up) =
          (es.foldl relStep r).names ++ climb root k (es.foldl relStep r).up ∧
        ['.', '.'] ∉ (es.foldl relStep r).names := by
  induction es with
  | nil => exact fun r h => ⟨rfl, h⟩
  | cons e es ih =>
    intro r h
    obtain ⟨hstep, hnext⟩ := cleanStep_eq h e
    rw [List.foldl_cons, List.foldl_cons, hstep]
    exact ih _ hnext

/-- A text read from a directory climbs and goes down, whatever the directory. -/
theorem walk_eq (root : Bool) (k : List Str) (s : Str) :
    walk root k s = (relClean s).names ++ climb root k (relClean s).up :=
  (foldl_cleanStep_eq root k (s.splitOn '/') ⟨0, []⟩ List.not_mem_nil).1

theorem relClean_append (s t : Str) : relClean (s ++ '/' :: t) = (t.splitOn '/').foldl relStep (relClean s) := by
  rw [relClean, List.splitOn_append_cons_self, List.foldl_append]
  rfl

theorem relClean_append_name {e : Str} (he : Name e) (h2 : e ≠ ['.', '.']) (s : Str) :
    relClean (s ++ '/' :: e) = ⟨(relClean s).up, e :: (relClean s).names⟩ := by
  rw [relClean_append, List.splitOn_eq_singleton he.slash, List.foldl_cons, List.foldl_nil, relStep,
    if_neg (by simp [he.ne_nil, he.ne_dot]), if_neg h2]

/-! ## What is kept of a directory -/

def depth (s : Str) : Nat := ((kept s).filter (· ≠ ['.', '.'])).length

/-- Climbs left over stand at the outermost end, and a rooted path has none. -/
structure Shape (root : Bool) (k : List Str) (ns : List Str) (j : Nat) : Prop where
  eq : k = ns ++ List.replicate j ['.', '.']
  names : ['.', '.'] ∉ ns
  root : root = true → j = 0

theorem Shape.step {root : Bool} {k ns : List Str} {j : Nat} (h : Shape root k ns j) (e : Str) :
    ∃ ns' j', Shape root (cleanStep root k e) ns' j' := by
  by_cases h0 : e = [] ∨ e = ['.']
  · rw [cleanStep_skip h0]
    exact ⟨ns, j, h⟩
  by_cases h2 : e = ['.', '.']
  · subst h2
    obtain ⟨rfl, hn, hroot⟩ := h
    cases ns with
    | cons a ns =>
      simp only [List.mem_cons, not_or] at hn
      exact ⟨ns, j, cleanStep_up (Ne.symm hn.1), hn.2, hroot⟩
    | nil =>
      cases root with
      | true => exact ⟨[], 0, by rw [hroot rfl]; rfl, List.not_mem_nil, fun _ => rfl⟩
      | false =>
        refine ⟨[], j + 1, ?_, List.not_mem_nil, fun e => by cases e⟩
        cases j with
        | zero => rfl
        | succ j => rfl
  · rw [cleanStep_name h0 h2]
    refine ⟨e :: ns, j, by rw [h.eq]; rfl, ?_, h.root⟩
    simp only [List.mem_cons, not_or]
    exact ⟨Ne.symm h2, h.names⟩

theorem kept_shape (s : Str) : ∃ ns j, Shape (rooted s) (kept s) ns j := by
  have hfold : ∀ (es k : List Str), (∃ ns j, Shape (rooted s) k ns j) →
      ∃ ns j, Shape (rooted s) (es.foldl (cleanStep (rooted s)) k) ns j := by
    intro es
    induction es with
    | nil => exact fun _ h => h
    | cons e es ih =>
      intro k h
      obtain ⟨ns, j, h⟩ := h
      exact ih _ (h.step e)
  exact hfold _ [] ⟨[], 0, rfl, List.not_mem_nil, fun _ => rfl⟩

theorem Shape.depth {s : Str} {ns : List Str} {j : Nat} (h : Shape (rooted s) (kept s) ns j) : depth s = ns.length := by
  have h1 : ns.filter (· ≠ ['.', '.']) = ns := List.filter_eq_self.mpr fun a ha => by
    simp only [ne_eq, decide_not, Bool.not_eq_eq_eq_not, Bool.not_true, decide_eq_false_iff_not]
    intro e
    exact h.names (e ▸ ha)
  have h2 : (List.replicate j ['.', '.']).filter (· ≠ ['.', '.']) = [] := List.filter_eq_nil_iff.mpr fun a ha => by
    rw [List.eq_of_mem_replicate ha]
    decide
  rw [Go.depth, h.eq, List.filter_append, h1, h2, List.append_nil]

/-- A climb within the names takes them off. -/
theorem Shape.climb_le {root : Bool} {k ns : List Str} {j : Nat} (h : Shape root k ns j) :
    ∀ {n : Nat}, n ≤ ns.length → climb root k n = k.drop n := by
  intro n
  induction n with
  | zero => exact fun _ => rfl
  | succ n ih =>
    intro hn
    rw [climb, ih (by omega), h.eq, List.drop_append_of_le_length (by omega), List.drop_append_of_le_length hn,
      List.drop_eq_getElem_cons (by omega)]
    have hne : ns[n] ≠ ['.', '.'] := fun e => h.names (e ▸ List.getElem_mem _)
    exact cleanStep_up hne

/-- A climb beyond the names of a rooted path ends at the root. -/
theorem Shape.climb_rooted {k ns : List Str} {j : Nat} (h : Shape true k ns j) {n : Nat} (hn : ns.length ≤ n) :
    climb true k n = [] := by
  induction n, hn using Nat.le_induction with
  | base =>
    rw [h.climb_le le_rfl, h.eq, h.root rfl]
    simp
  | succ n _ ih => rw [climb, ih]; rfl

theorem Shape.climb_out {k ns : List Str} {j : Nat} (h : Shape false k ns j) {n : Nat} (hn : ns.length ≤ n) :
    climb false k n = List.replicate (j + (n - ns.length)) ['.', '.'] := by
  induction n, hn using Nat.le_induction with
  | base =>
    rw [h.climb_le le_rfl, h.eq]
    simp
  | succ n hn ih =>
    have e : j + (n + 1 - ns.length) = j + (n - ns.length) + 1 := by omega
    rw [climb, ih, e]
    cases j + (n - ns.length) with
    | zero => rfl
    | succ m => rfl

/-! ## Below an entry of a directory -/

/-- Read from `dir`, `rest` comes out at the names `y` below the entry `name` of `dir`:
    what it climbs out of it names again on its way down. -/
def Lands (dir name rest : Str) (y : List Str) : Prop :=
  (rooted dir = true ∨ (relClean rest).up ≤ depth dir) ∧
    (relClean rest).names = y ++ name :: (kept dir).take (relClean rest).up

def StaysIn (dir name rest : Str) : Prop := ∃ y, Lands dir name rest y

def StaysBelow (dir name rest : Str) : Prop := ∃ y, y ≠ [] ∧ Lands dir name rest y

/-- Read from `start`, `rest` comes out in the entry `name` of another directory. -/
def Reaches (start dir name rest : Str) : Prop :=
  rooted start = rooted dir ∧
    ∃ y, (relClean rest).names ++ climb (rooted start) (kept start) (relClean rest).up = y ++ name :: kept dir

/-- Read element by element, `p` comes out below the entry `name` of a directory. -/
def ReadsBelow (dir name p : Str) : Prop := rooted dir = rooted p ∧ ∃ y, y ≠ [] ∧ kept p = y ++ name :: kept dir

/-- A directory as text that its entries' names are put behind. -/
def DirText (dir : Str) : Prop := dir = [] ∨ ∃ d, dir = d ++ ['/']

theorem Shape.lands_iff {root : Bool} {k ns : List Str} {j : Nat} (h : Shape root k ns j) {r : Descent}
    {name : Str} (hname : name ≠ ['.', '.']) (y : List Str) :
    r.names ++ climb root k r.up = y ++ name :: k ↔
      (root = true ∨ r.up ≤ ns.length) ∧ r.names = y ++ name :: k.take r.up := by
  by_cases hup : r.up ≤ ns.length
  · rw [h.climb_le hup]
    have e : y ++ name :: k = (y ++ name :: k.take r.up) ++ k.drop r.up := by simp
    rw [e, List.append_cancel_right_eq]
    simp [hup]
  have hle : ns.length ≤ r.up := by omega
  cases root with
  | true =>
    have hk : k.take r.up = k := List.take_of_length_le (by rw [h.eq, h.root rfl]; simpa using hle)
    rw [h.climb_rooted hle, hk, List.append_nil]
    simp
  | false =>
    -- a climb out of the text leaves a `..` where it has a name
    obtain ⟨m, hm⟩ : ∃ m, r.up - ns.length = m + 1 := ⟨r.up - ns.length - 1, by omega⟩
    simp only [hup, Bool.false_eq_true, or_self, false_and, iff_false]
    intro he
    have hj : List.replicate (j + (m + 1)) ['.', '.'] = List.replicate (m + 1) ['.', '.'] ++ List.replicate j ['.', '.'] := by
      rw [List.replicate_append_replicate, Nat.add_comm]
    have hk : y ++ name :: k = (y ++ name :: ns) ++ List.replicate j ['.', '.'] := by rw [h.eq]; simp
    rw [h.climb_out hle, hm, hj, hk, ← List.append_assoc, List.append_cancel_right_eq] at he
    have hlast := congrArg List.getLast? he
    rw [List.replicate_succ', ← List.append_assoc, List.getLast?_concat, List.getLast?_append_cons] at hlast
    rcases List.mem_cons.mp (List.mem_of_getLast? hlast.symm) with e | e
    · exact hname e.symm
    · exact h.names e

section
variable {dir : Str}

theorem kept_dir_append (hdir : DirText dir) {rest : Str} (hrest : rooted rest = false) :
    rooted (dir ++ rest) = rooted dir ∧
      kept (dir ++ rest) = (relClean rest).names ++ climb (rooted dir) (kept dir) (relClean rest).up := by
  rcases hdir with rfl | ⟨d, rfl⟩
  · refine ⟨hrest, ?_⟩
    rw [List.nil_append, kept, hrest, walk_eq]
    rfl
  · have hroot : ∀ t, rooted (d ++ '/' :: t) = rooted (d ++ ['/']) := by
      intro t
      cases d with
      | nil => rfl
      | cons a d => rfl
    have hkept : kept (d ++ ['/']) = walk (rooted (d ++ ['/'])) [] d := by
      rw [kept, walk, List.splitOn_append_cons_self, List.foldl_append]
      rfl
    rw [List.append_assoc, List.singleton_append, hroot]
    refine ⟨rfl, ?_⟩
    rw [kept, hroot, walk, List.splitOn_append_cons_self, List.foldl_append, ← walk_eq, hkept]
    rfl

theorem kept_entry (hdir : DirText dir) {name : Str} (hname : Name name) (h2 : name ≠ ['.', '.']) :
    rooted (dir ++ name) = rooted dir ∧ kept (dir ++ name) = name :: kept dir := by
  have hroot : rooted name = false := by
    rcases name with _ | ⟨a, t⟩
    · rfl
    · have ha : a ≠ '/' := fun e => hname.slash (e ▸ List.mem_cons_self)
      simpa [rooted] using ha
  have hrel : relClean name = ⟨0, [name]⟩ := by
    rw [relClean, List.splitOn_eq_singleton hname.slash, List.foldl_cons, List.foldl_nil, relStep,
      if_neg (by simp [hname.ne_nil, hname.ne_dot]), if_neg h2]
  obtain ⟨hr, hk⟩ := kept_dir_append hdir hroot
  refine ⟨hr, ?_⟩
  rw [hk, hrel]
  rfl

/-- Where a text behind a directory's leads, against one of the directory's entries. -/
theorem lands_iff (hdir : DirText dir) {name rest : Str} (hname : Name name) (h2 : name ≠ ['.', '.'])
    (hrest : rooted rest = false) (y : List Str) :
    (rooted (dir ++ name) = rooted (dir ++ rest) ∧ kept (dir ++ rest) = y ++ kept (dir ++ name)) ↔
      Lands dir name rest y := by
  obtain ⟨hr, hk⟩ := kept_dir_append hdir hrest
  obtain ⟨hr', hk'⟩ := kept_entry hdir hname h2
  obtain ⟨ns, j, hs⟩ := kept_shape dir
  rw [hr, hr', hk, hk', hs.lands_iff h2, Lands, hs.depth]
  simp

theorem below_entry_iff (hdir : DirText dir) {name rest : Str} (hname : Name name) (h2 : name ≠ ['.', '.'])
    (hrest : rooted rest = false) : Below (dir ++ name) (dir ++ rest) ↔ StaysBelow dir name rest := by
  have hne : kept (dir ++ name) ≠ [] := by rw [(kept_entry hdir hname h2).2]; simp
  rw [below_iff hne, StaysBelow]
  simp only [← lands_iff hdir hname h2 hrest]
  constructor
  · intro h
    obtain ⟨hr, y, hy, hk⟩ := h
    exact ⟨y, hy, hr, hk⟩
  · intro h
    obtain ⟨y, hy, hr, hk⟩ := h
    exact ⟨hr, y, hy, hk⟩

theorem below_reads_iff (hdir : DirText dir) {name : Str} (hname : Name name) (h2 : name ≠ ['.', '.']) (p : Str) :
    Below (dir ++ name) p ↔ ReadsBelow dir name p := by
  obtain ⟨hr, hk⟩ := kept_entry hdir hname h2
  rw [below_iff (by rw [hk]; simp), hr, hk, ReadsBelow]

theorem inside_entry_iff (hdir : DirText dir) {name rest : Str} (hname : Name name) (h2 : name ≠ ['.', '.'])
    (hrest : rooted rest = false) : Inside (dir ++ name) (dir ++ rest) ↔ StaysIn dir name rest := by
  have hne : kept (dir ++ name) ≠ [] := by rw [(kept_entry hdir hname h2).2]; simp
  rw [inside_iff hne, StaysIn]
  simp only [← lands_iff hdir hname h2 hrest]
  constructor
  · intro h
    obtain ⟨hr, y, hk⟩ := h
    exact ⟨y, hr, hk⟩
  · intro h
    obtain ⟨y, hr, hk⟩ := h
    exact ⟨hr, y, hk⟩

theorem inside_reaches_iff {start : Str} (hstart : DirText start) (hdir : DirText dir) {name rest : Str} (hname : Name name)
    (h2 : name ≠ ['.', '.']) (hrest : rooted rest = false) : Inside (dir ++ name) (start ++ rest) ↔
      Reaches start dir name rest := by
  obtain ⟨hr, hk⟩ := kept_dir_append hstart hrest
  obtain ⟨hr', hk'⟩ := kept_entry hdir hname h2
  rw [inside_iff (by rw [hk']; simp), hr, hr', hk, hk', Reaches, eq_comm]

/-- One more plain name keeps a path where it is, or takes it below. -/
theorem staysBelow_append_name {name rest e : Str} (he : Name e) (h2 : e ≠ ['.', '.']) :
    StaysBelow dir name (rest ++ '/' :: e) ↔ StaysIn dir name rest := by
  unfold StaysBelow StaysIn Lands
  rw [relClean_append_name he h2]
  constructor
  · intro h
    obtain ⟨y, hy, hup, hn⟩ := h
    obtain ⟨a, y, rfl⟩ := List.exists_cons_of_ne_nil hy
    exact ⟨y, hup, (List.cons.inj hn).2⟩
  · intro h
    obtain ⟨y, hup, hn⟩ := h
    exact ⟨e :: y, List.cons_ne_nil _ _, hup, by rw [hn]; rfl⟩

end

/-! ## Joining names -/

/-- `filepath.Join` of a path and a name. -/
def join (path name : Str) : Str := pathClean (path ++ '/' :: name)

theorem rooted_pathClean (s : Str) : rooted (pathClean s) = rooted s := by
  rw [pathClean_eq]
  cases hr : rooted s with
  | true => rfl
  | false =>
    simp only [Bool.false_eq_true, if_false]
    split
    · rfl
    · rename_i hk
      obtain ⟨a, A, hA⟩ := List.exists_cons_of_ne_nil (fun e => hk (List.reverse_eq_nil_iff.mp e) : (kept s).reverse ≠ [])
      have ha : Name a := mem_kept (List.mem_reverse.mp (by rw [hA]; exact List.mem_cons_self))
      obtain ⟨x, xs, rfl⟩ := List.exists_cons_of_ne_nil ha.ne_nil
      have hx : x ≠ '/' := fun e => ha.slash (e ▸ List.mem_cons_self)
      rw [hA]
      cases A <;> simpa [rooted, List.intercalate] using hx

theorem foldr_climbs (j : Nat) : (List.replicate j ['.', '.']).foldr (fun e acc => cleanStep false acc e) [] =
    List.replicate j ['.', '.'] := by
  induction j with
  | zero => rfl
  | succ j ih =>
    rw [List.replicate_succ, List.foldr_cons, ih]
    cases j <;> rfl

theorem Shape.foldr_cleanStep {root : Bool} {k ns : List Str} {j : Nat} (h : Shape root k ns j) (hk : ∀ e ∈ k, Name e) :
    k.foldr (fun e acc => cleanStep root acc e) [] = k := by
  obtain ⟨rfl, hns, hroot⟩ := h
  have hclimbs : (List.replicate j ['.', '.']).foldr (fun e acc => cleanStep root acc e) [] = List.replicate j ['.', '.'] := by
    cases root with
    | true => rw [hroot rfl]; rfl
    | false => exact foldr_climbs j
  rw [List.foldr_append, hclimbs]
  induction ns with
  | nil => rfl
  | cons a ns ih =>
    simp only [List.mem_cons, not_or] at hns
    have ha : Name a := hk a List.mem_cons_self
    rw [List.foldr_cons, ih hns.2 fun e he => hk e (List.mem_cons_of_mem _ he),
      cleanStep_name (by simp [ha.ne_nil, ha.ne_dot]) (Ne.symm hns.1)]
    rfl

theorem kept_pathClean (s : Str) : kept (pathClean s) = kept s := by
  have hkept : (kept s).reverse.foldl (cleanStep (rooted s)) [] = kept s := by
    obtain ⟨ns, j, hs⟩ := kept_shape s
    rw [List.foldl_reverse]
    exact hs.foldr_cleanStep fun e he => mem_kept he
  have hroot : (if rooted s then [[]] else [] : List Str).foldl (cleanStep (rooted s)) [] = [] := by
    cases rooted s <;> rfl
  rw [kept, walk, rooted_pathClean, splitOn_pathClean, List.foldl_append, hroot]
  split
  · rename_i hk
    rw [hk]
    cases rooted s <;> rfl
  · exact hkept

theorem pathClean_ne_nil (s : Str) : pathClean s ≠ [] := by
  intro h
  have hk := kept_pathClean s
  have hr := rooted_pathClean s
  rw [h] at hk hr
  rw [pathClean_eq, ← hr, ← hk] at h
  exact absurd h (by decide)

theorem kept_join {p n : Str} (hp : p ≠ []) (hn : Name n) (h2 : n ≠ ['.', '.']) :
    rooted (join p n) = rooted p ∧ kept (join p n) = n :: kept p := by
  have hroot : rooted (p ++ ['/']) = rooted p := by
    cases p with
    | nil => exact absurd rfl hp
    | cons a p => rfl
  have hkept : kept (p ++ ['/']) = kept p := by
    rw [kept, hroot, walk, List.splitOn_append_cons_self, List.foldl_append]
    rfl
  have hdir : DirText (p ++ ['/']) := Or.inr ⟨p, rfl⟩
  have hentry := kept_entry hdir hn h2
  rw [List.append_assoc, List.singleton_append, hroot, hkept] at hentry
  rw [join, rooted_pathClean, kept_pathClean]
  exact hentry

theorem kept_foldl_join : ∀ {ns : List Str} {p : Str}, p ≠ [] → (∀ n ∈ ns, Name n ∧ n ≠ ['.', '.']) →
    rooted (ns.foldl join p) = rooted p ∧ kept (ns.foldl join p) = ns.reverse ++ kept p
  | [], _, _, _ => ⟨rfl, rfl⟩
  | n :: ns, p, hp, hns => by
    obtain ⟨hn, h2⟩ := hns n List.mem_cons_self
    obtain ⟨hr, hk⟩ := kept_join hp hn h2
    obtain ⟨hr', hk'⟩ := kept_foldl_join (p := join p n) (pathClean_ne_nil _) fun m hm => hns m (List.mem_cons_of_mem _ hm)
    rw [List.foldl_cons, hr', hr, hk', hk, List.reverse_cons, List.append_assoc, List.singleton_append]
    exact ⟨rfl, rfl⟩

theorem infix_intercalate (a b : Str) (B : List Str) : ∀ A : List Str, a ++ '/' :: b <:+: ['/'].intercalate (A ++ a :: b :: B)
  | [] => by
    refine List.IsPrefix.isInfix ?_
    cases B <;> simp [List.intercalate, List.intersperse]
  | x :: A => by
    have ih := infix_intercalate a b B A
    refine ih.trans (List.IsSuffix.isInfix ?_)
    obtain ⟨y, ys, hys⟩ := List.exists_cons_of_ne_nil (by simp : A ++ a :: b :: B ≠ [])
    rw [List.cons_append, hys, show ['/'].intercalate (x :: y :: ys) = (x ++ ['/']) ++ ['/'].intercalate (y :: ys) by
      simp [List.intercalate]]
    exact List.suffix_append _ _

theorem infix_pathClean {s a b : Str} {K B : List Str} (h : kept s = K ++ b :: a :: B) : a ++ '/' :: b <:+: pathClean s := by
  have hrev : (kept s).reverse = B.reverse ++ a :: b :: K.reverse := by rw [h]; simp
  have hinfix := infix_intercalate a b K.reverse B.reverse
  rw [← hrev] at hinfix
  rw [pathClean_eq]
  split
  · exact hinfix.trans (List.suffix_cons _ _).isInfix
  · rw [if_neg (by rw [h]; simp)]
    exact hinfix

theorem infix_foldl_join {p a b : Str} (hp : p ≠ []) {A ns : List Str} (hk : kept p = a :: A)
    (hns : ∀ n ∈ b :: ns, Name n ∧ n ≠ ['.', '.']) : a ++ '/' :: b <:+: (b :: ns).foldl join p := by
  have hkept := (kept_foldl_join hp hns).2
  obtain ⟨ms, m, hms⟩ := (List.eq_nil_or_concat (b :: ns)).resolve_left (by simp)
  have hclean : (b :: ns).foldl join p = pathClean (ms.foldl join p ++ '/' :: m) := by
    rw [hms, List.concat_eq_append, List.foldl_concat, join]
  rw [hclean, kept_pathClean, List.reverse_cons, List.append_assoc, List.singleton_append, hk] at hkept
  rw [hclean]
  exact infix_pathClean hkept

end GoFastdfs.Go
