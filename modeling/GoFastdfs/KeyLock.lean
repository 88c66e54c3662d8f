/-
  GoFastdfs.KeyLock — a lock per key, kept in a map of mutexes (`LockKey`, `UnLockKey` of
  `goutil.go`).

  `LockKey` takes the mutex it finds under the key, waiting for it if need be, or puts a
  new one there that is its own at once. `UnLockKey` unlocks the mutex it finds under the
  key and deletes it. The map is changed under a lock of its own, so each call is one
  step but for the wait. A mutex with a waiter outlives its entry: the waiter gets it and
  nobody else can find it, and what it unlocks later is the next entry or nothing.

  Workers call `LockKey`, run a program on a shared state, and call `UnLockKey`. Proved:
  while nobody calls `LockKey` with another worker waiting, or with one inside that had to
  wait, at most one worker is inside and nobody waits for a mutex that nobody will unlock
  (`calm_run`), and what one worker's program keeps is kept (`keeps_run`); and from a
  calm state any other call of `LockKey` can lead to two workers inside or to one that
  waits for good (`uncalm_call_breaks`).
-/

import GoFastdfs.Store
import Mathlib.Logic.Function.Basic
import Mathlib.Logic.Relation

namespace GoFastdfs.KeyLock

variable {K ι ξ κ σ : Type}

/-- An entry of the map: a mutex, or the value that `IsLock` looks for. -/
inductive Item where
  | mutex (n : Nat)
  | flag
  deriving DecidableEq

/-- What a worker does inside, from its input on. -/
structure Program (ξ κ σ : Type) where
  start : ξ → κ
  work : κ → σ → κ → σ → Prop
  done : κ → Prop

/-- Where a worker is: outside, waiting for a mutex, or between the return of `LockKey` and
    `UnLockKey`. -/
inductive Pc (ξ κ : Type) where
  | idle
  | wait (n : Nat) (x : ξ)
  | inside (k : κ)

structure State (K ι ξ κ σ : Type) where
  map : Store K Item
  locked : Nat → Bool
  /-- The mutexes made so far. -/
  next : Nat
  worker : ι → Pc ξ κ
  shared : σ

variable [DecidableEq K] [DecidableEq ι] (P : Program ξ κ σ) (key flag : K)

namespace State

def at_ (s : State K ι ξ κ σ) (i : ι) (pc : Pc ξ κ) : State K ι ξ κ σ := { s with worker := Function.update s.worker i pc }

def lock (s : State K ι ξ κ σ) (n : Nat) (b : Bool) : State K ι ξ κ σ := { s with locked := Function.update s.locked n b }

def Inside (s : State K ι ξ κ σ) (i : ι) : Prop := ∃ k, s.worker i = .inside k

def Waits (s : State K ι ξ κ σ) (i : ι) : Prop := ∃ n x, s.worker i = .wait n x

/-- `i` waits for a locked mutex while nobody is inside. -/
def Stranded (s : State K ι ξ κ σ) (i : ι) : Prop :=
  ∃ n x, s.worker i = .wait n x ∧ s.locked n = true ∧ ∀ j, ¬ s.Inside j

end State

open State

/-- One step. Unlocking a mutex that is not locked would end the process. -/
inductive Step : State K ι ξ κ σ → State K ι ξ κ σ → Prop
  | wait (s : State K ι ξ κ σ) (i : ι) (x : ξ) (n : Nat) : s.worker i = .idle → s.map.get key = some (.mutex n) →
      Step s { s.at_ i (.wait n x) with map := s.map.put flag .flag }
  /-- A key that is another key's flag is not locked at all. -/
  | pass (s : State K ι ξ κ σ) (i : ι) (x : ξ) : s.worker i = .idle → s.map.get key = some .flag →
      Step s { s.at_ i (.inside (P.start x)) with map := s.map.put flag .flag }
  | create (s : State K ι ξ κ σ) (i : ι) (x : ξ) : s.worker i = .idle → s.map.get key = none →
      Step s { (s.at_ i (.inside (P.start x))).lock s.next true with
        map := (s.map.put key (.mutex s.next)).put flag .flag, next := s.next + 1 }
  | acquire (s : State K ι ξ κ σ) (i : ι) (x : ξ) (n : Nat) : s.worker i = .wait n x → s.locked n = false →
      Step s ((s.at_ i (.inside (P.start x))).lock n true)
  | work (s : State K ι ξ κ σ) (i : ι) (k k' : κ) (sh : σ) : s.worker i = .inside k → P.work k s.shared k' sh →
      Step s { s.at_ i (.inside k') with shared := sh }
  | unlock (s : State K ι ξ κ σ) (i : ι) (k : κ) (n : Nat) : s.worker i = .inside k → P.done k →
      s.map.get key = some (.mutex n) → s.locked n = true →
      Step s { (s.at_ i .idle).lock n false with map := (s.map.del flag).del key }
  | unlockFlag (s : State K ι ξ κ σ) (i : ι) (k : κ) : s.worker i = .inside k → P.done k →
      s.map.get key = some .flag → Step s { s.at_ i .idle with map := (s.map.del flag).del key }
  | unlockNone (s : State K ι ξ κ σ) (i : ι) (k : κ) : s.worker i = .inside k → P.done k →
      s.map.get key = none → Step s (s.at_ i .idle)

def init (sh : σ) : State K ι ξ κ σ := ⟨∅, fun _ => false, 0, fun _ => .idle, sh⟩

/-- A worker may call `LockKey`: nobody waits, and whoever is inside made the mutex that the
    map has. -/
def Calm (s : State K ι ξ κ σ) : Prop := (∀ i, ¬ s.Waits i) ∧ ((∃ i, s.Inside i) → s.map.get key ≠ none)

def CalmStep (s s' : State K ι ξ κ σ) : Prop :=
  Step P key flag s s' ∧ ((∃ i, s.worker i = .idle ∧ s'.worker i ≠ .idle) → Calm key s)

/-! ## One worker at a time -/

/-- At most one worker is inside and at most one waits. The mutex of the map is locked by
    the worker inside; a mutex that is waited for is that one, or it is free and nobody is
    inside. -/
structure Exclusive (s : State K ι ξ κ σ) : Prop where
  inside : ∀ i j, s.Inside i → s.Inside j → i = j
  waits : ∀ i j, s.Waits i → s.Waits j → i = j
  noFlag : s.map.get key ≠ some .flag
  entry : ∀ n, s.map.get key = some (.mutex n) → s.locked n = true ∧ ∃ i, s.Inside i
  waited : ∀ i n x, s.worker i = .wait n x →
    s.map.get key = some (.mutex n) ∨ (s.map.get key = none ∧ s.locked n = false ∧ ∀ j, ¬ s.Inside j)
  made : ∀ i n x, s.worker i = .wait n x → n < s.next
  entry_made : ∀ n, s.map.get key = some (.mutex n) → n < s.next

section
variable {P key flag} {s : State K ι ξ κ σ} {i j : ι} {pc : Pc ξ κ}

omit [DecidableEq K] in
@[simp] theorem worker_at_self : (s.at_ i pc).worker i = pc := by simp [State.at_]

omit [DecidableEq K] in
theorem worker_at_ne (h : j ≠ i) : (s.at_ i pc).worker j = s.worker j := by simp [State.at_, h]

omit [DecidableEq K] in
theorem inside_at : (s.at_ i pc).Inside j ↔ if j = i then ∃ k, pc = .inside k else s.Inside j := by
  unfold State.Inside
  split
  · rename_i h
    rw [h, worker_at_self]
  · rename_i h
    rw [worker_at_ne h]

omit [DecidableEq K] in
theorem waits_at : (s.at_ i pc).Waits j ↔ if j = i then ∃ n x, pc = .wait n x else s.Waits j := by
  unfold State.Waits
  split
  · rename_i h
    rw [h, worker_at_self]
  · rename_i h
    rw [worker_at_ne h]

omit [DecidableEq K] in
theorem inside_of_at (hpc : ∀ k, pc ≠ .inside k) (h : (s.at_ i pc).Inside j) : j ≠ i ∧ s.Inside j := by
  rw [inside_at] at h
  split at h
  · obtain ⟨k, e⟩ := h
    exact absurd e (hpc k)
  · exact ⟨‹_›, h⟩

omit [DecidableEq K] in
theorem waits_of_at (hpc : ∀ n x, pc ≠ .wait n x) (h : (s.at_ i pc).Waits j) : j ≠ i ∧ s.Waits j := by
  rw [waits_at] at h
  split at h
  · obtain ⟨n, x, e⟩ := h
    exact absurd e (hpc n x)
  · exact ⟨‹_›, h⟩

omit [DecidableEq K] in
theorem eq_of_inside_at (hnone : ∀ j, ¬ s.Inside j) (h : (s.at_ i pc).Inside j) : j = i := by
  rw [inside_at] at h
  split at h
  · assumption
  · exact absurd h (hnone j)

omit [DecidableEq K] [DecidableEq ι] in
theorem ne_of_worker {pc' : Pc ξ κ} (hi : s.worker i = pc) (hj : s.worker j = pc') (h : pc ≠ pc') : i ≠ j := by
  intro heq
  subst heq
  exact h (hi.symm.trans hj)

omit [DecidableEq ι] in
theorem Exclusive.only (h : Exclusive key s) {k : κ} (hi : s.worker i = .inside k) (hj : s.Inside j) : j = i :=
  h.inside j i hj ⟨k, hi⟩

theorem Exclusive.wait (h : Exclusive key s) (hk : flag ≠ key) (hc : Calm key s) {x : ξ} {n : Nat}
    (hi : s.worker i = .idle) (hm : s.map.get key = some (.mutex n)) :
    Exclusive key { s.at_ i (.wait n x) with map := s.map.put flag .flag } := by
  have hin : ∀ j, (s.at_ i (.wait n x)).Inside j → s.Inside j := fun j hj => (inside_of_at (by simp) hj).2
  have hwait : ∀ j, (s.at_ i (.wait n x)).Waits j → j = i := by
    intro j hj
    rw [waits_at] at hj
    split at hj
    · assumption
    · exact absurd hj (hc.1 j)
  have hmap : (s.map.put flag .flag).get key = s.map.get key := Store.get_put_ne _ _ hk.symm
  refine ⟨fun a b ha hb => h.inside a b (hin a ha) (hin b hb), fun a b ha hb => (hwait a ha).trans (hwait b hb).symm,
    ?_, ?_, ?_, ?_,
    fun m hm' => h.entry_made m (hmap ▸ hm')⟩
  · show (s.map.put flag .flag).get key ≠ _
    rw [hmap]
    exact h.noFlag
  · intro m hm'
    obtain ⟨hl, a, ha⟩ := h.entry m (hmap ▸ hm')
    refine ⟨hl, a, inside_at.mpr ?_⟩
    rw [if_neg]
    · exact ha
    · intro heq
      subst heq
      obtain ⟨k, ha⟩ := ha
      rw [hi] at ha
      cases ha
  · intro a m y ha
    obtain rfl := hwait a ⟨m, y, ha⟩
    rw [show (s.at_ a (.wait n x)).worker a = .wait n x from worker_at_self] at ha
    cases ha
    exact Or.inl (hmap.trans hm)
  · intro a m y ha
    obtain rfl := hwait a ⟨m, y, ha⟩
    rw [show (s.at_ a (.wait n x)).worker a = .wait n x from worker_at_self] at ha
    cases ha
    exact h.entry_made n hm

theorem Calm.create (hc : Calm key s) (hk : flag ≠ key) {k : κ} (hm : s.map.get key = none) :
    Exclusive key { (s.at_ i (.inside k)).lock s.next true with
      map := (s.map.put key (.mutex s.next)).put flag .flag, next := s.next + 1 } := by
  have hnone : ∀ j, ¬ s.Inside j := fun j hj => hc.2 ⟨j, hj⟩ hm
  have hin : ∀ j, (s.at_ i (.inside k)).Inside j → j = i := fun j hj => eq_of_inside_at hnone hj
  have hwait : ∀ j, ¬ (s.at_ i (.inside k)).Waits j := fun j hj => hc.1 j (waits_of_at (by simp) hj).2
  have hmap : ((s.map.put key (.mutex s.next)).put flag .flag).get key = some (.mutex s.next) := by
    rw [Store.get_put_ne _ _ hk.symm, Store.get_put_self]
  refine ⟨fun a b ha hb => (hin a ha).trans (hin b hb).symm, fun a _ ha => absurd ha (hwait a), ?_, ?_,
    fun a n x ha => absurd ⟨n, x, ha⟩ (hwait a), fun a n x ha => absurd ⟨n, x, ha⟩ (hwait a), ?_⟩
  · rw [hmap]
    simp
  · intro n hn
    rw [hmap] at hn
    cases hn
    exact ⟨Function.update_self _ _ _, i, k, worker_at_self⟩
  · intro n hn
    rw [hmap] at hn
    cases hn
    exact Nat.lt_succ_self _

omit [DecidableEq K] in
theorem wait_of_at {n : Nat} {x : ξ} (hpc : ∀ n x, pc ≠ .wait n x) (h : (s.at_ i pc).worker j = .wait n x) :
    s.worker j = .wait n x := by
  by_cases e : j = i
  · subst e
    rw [worker_at_self] at h
    exact absurd h (hpc n x)
  · rwa [worker_at_ne e] at h

omit [DecidableEq ι] in
/-- The mutex waited for is free: its entry is gone and nobody is inside. -/
theorem Exclusive.free (h : Exclusive key s) {x : ξ} {n : Nat} (hi : s.worker i = .wait n x) (hl : s.locked n = false) :
    s.map.get key = none ∧ ∀ j, ¬ s.Inside j := by
  rcases h.waited i n x hi with hm | ⟨hm, _, hnone⟩
  · rw [(h.entry n hm).1] at hl
    cases hl
  · exact ⟨hm, hnone⟩

theorem Exclusive.acquire (h : Exclusive key s) {k : κ} {x : ξ} {n : Nat} (hi : s.worker i = .wait n x)
    (hl : s.locked n = false) : Exclusive key ((s.at_ i (.inside k)).lock n true) := by
  obtain ⟨hm, hnone⟩ := h.free hi hl
  have hin : ∀ j, (s.at_ i (.inside k)).Inside j → j = i := fun j hj => eq_of_inside_at hnone hj
  have hwait : ∀ j, ¬ (s.at_ i (.inside k)).Waits j := by
    intro j hj
    obtain ⟨hne, hj⟩ := waits_of_at (by simp) hj
    exact hne (h.waits j i hj ⟨n, x, hi⟩)
  refine ⟨fun a b ha hb => (hin a ha).trans (hin b hb).symm, fun a _ ha => absurd ha (hwait a), h.noFlag, ?_,
    fun a m y ha => absurd ⟨m, y, ha⟩ (hwait a), fun a m y ha => absurd ⟨m, y, ha⟩ (hwait a), h.entry_made⟩
  intro m hm'
  cases hm.symm.trans hm'

theorem Exclusive.work (h : Exclusive key s) {k k' : κ} (sh : σ) (hi : s.worker i = .inside k) :
    Exclusive key { s.at_ i (.inside k') with shared := sh } := by
  have hin : ∀ j, (s.at_ i (.inside k')).Inside j ↔ s.Inside j := by
    intro j
    rw [inside_at]
    split
    · rename_i e
      rw [e]
      exact ⟨fun _ => ⟨k, hi⟩, fun _ => ⟨k', rfl⟩⟩
    · rfl
  have hwait : ∀ j, (s.at_ i (.inside k')).Waits j → s.Waits j := fun j hj => (waits_of_at (by simp) hj).2
  refine ⟨fun a b ha hb => h.inside a b ((hin a).mp ha) ((hin b).mp hb), fun a b ha hb => h.waits a b (hwait a ha) (hwait b hb),
    h.noFlag, ?_, ?_, fun a n x ha => h.made a n x (wait_of_at (by simp) ha), h.entry_made⟩
  · intro n hn
    obtain ⟨hl, a, ha⟩ := h.entry n hn
    exact ⟨hl, a, (hin a).mpr ha⟩
  · intro a n x ha
    rcases h.waited a n x (wait_of_at (by simp) ha) with hm | ⟨_, _, hnone⟩
    · exact Or.inl hm
    · exact absurd ⟨k, hi⟩ (hnone i)

/-- `UnLockKey`, with the entry found or with none. -/
theorem Exclusive.unlock (h : Exclusive key s) {k : κ} (hi : s.worker i = .inside k) {m' : Store K Item} {l' : Nat → Bool}
    (hm' : m'.get key = none) (hl' : ∀ n, s.map.get key = some (.mutex n) → l' n = false) :
    Exclusive key { s.at_ i .idle with map := m', locked := l' } := by
  have hin : ∀ j, ¬ (s.at_ i .idle).Inside j := by
    intro j hj
    obtain ⟨hne, hj⟩ := inside_of_at (by simp) hj
    exact hne (h.only hi hj)
  have hwait : ∀ j, (s.at_ i .idle).Waits j → s.Waits j := fun j hj => (waits_of_at (by simp) hj).2
  refine ⟨fun a _ ha => absurd ha (hin a), fun a b ha hb => h.waits a b (hwait a ha) (hwait b hb), ?_, ?_, ?_,
    fun a n x ha => h.made a n x (wait_of_at (by simp) ha), fun n hn => by cases hm'.symm.trans hn⟩
  · show m'.get key ≠ _
    rw [hm']
    simp
  · intro n hn
    cases hm'.symm.trans hn
  · intro a n x ha
    rcases h.waited a n x (wait_of_at (by simp) ha) with hm | ⟨_, _, hnone⟩
    · exact Or.inr ⟨hm', hl' n hm, hin⟩
    · exact absurd ⟨k, hi⟩ (hnone i)

theorem exclusive_step (hk : flag ≠ key) {s' : State K ι ξ κ σ} (hs : CalmStep P key flag s s') (h : Exclusive key s) :
    Exclusive key s' := by
  obtain ⟨hs, hc⟩ := hs
  cases hs with
  | wait i x n hi hm =>
    refine h.wait hk (hc ⟨i, hi, ?_⟩) hi hm
    simp [State.at_]
  | pass i x hi hm => exact absurd hm h.noFlag
  | create i x hi hm =>
    refine (hc ⟨i, hi, ?_⟩).create hk hm
    simp [State.at_, State.lock]
  | acquire i x n hi hl => exact h.acquire hi hl
  | work i k k' sh hi hw => exact h.work sh hi
  | unlock i k n hi hd hm hl =>
    refine h.unlock hi (Store.get_del_self _ _) ?_
    intro n' hn'
    rw [hm] at hn'
    cases hn'
    exact Function.update_self _ _ _
  | unlockFlag i k hi hd hm => exact absurd hm h.noFlag
  | unlockNone i k hi hd hm =>
    refine h.unlock hi hm ?_
    intro n hn
    rw [hm] at hn
    cases hn

end

/-- In a calm run at most one worker is inside, and nobody waits for good. -/
theorem calm_run (hk : flag ≠ key) {sh : σ} {s : State K ι ξ κ σ}
    (h : Relation.ReflTransGen (CalmStep P key flag) (init sh) s) :
    Exclusive key s ∧ (∀ i j, s.Inside i → s.Inside j → i = j) ∧ ∀ i, ¬ s.Stranded i := by
  have hex : Exclusive key s := by
    induction h with
    | refl =>
      refine ⟨?_, ?_, ?_, ?_, ?_, ?_, ?_⟩
      · intro i j hi
        obtain ⟨k, e⟩ := hi
        cases e
      · intro i j hi
        obtain ⟨n, x, e⟩ := hi
        cases e
      · exact fun e => by cases e
      · intro n e
        cases e
      · intro i n x e
        cases e
      · intro i n x e
        cases e
      · intro n e
        cases e
    | tail _ hs ih => exact exclusive_step hk hs ih
  refine ⟨hex, hex.inside, ?_⟩
  intro i hi
  obtain ⟨n, x, hw, hl, hnone⟩ := hi
  rcases hex.waited i n x hw with hm | ⟨_, hfree, _⟩
  · obtain ⟨_, j, hj⟩ := hex.entry n hm
    exact hnone j hj
  · rw [hfree] at hl
    cases hl

/-! ## What the program keeps -/

/-- A program keeps `I`: of the shared state alone while nobody is inside, and else of where
    the worker inside is too. -/
structure Keeps (I : Option κ → σ → Prop) : Prop where
  start : ∀ x sh, I none sh → I (some (P.start x)) sh
  work : ∀ k sh k' sh', I (some k) sh → P.work k sh k' sh' → I (some k') sh'
  done : ∀ k sh, I (some k) sh → P.done k → I none sh

/-- `I` holds of whoever is inside. -/
structure Holds (I : Option κ → σ → Prop) (s : State K ι ξ κ σ) : Prop where
  inside : ∀ i k, s.worker i = .inside k → I (some k) s.shared
  outside : (∀ i, ¬ s.Inside i) → I none s.shared

section
variable {P key flag} {s : State K ι ξ κ σ} {i : ι} {I : Option κ → σ → Prop}

omit [DecidableEq K] in
theorem Holds.enter (h : Holds I s) (hI : Keeps P I) (hnone : ∀ j, ¬ s.Inside j) {s' : State K ι ξ κ σ} (x : ξ)
    (hw : s'.worker = (s.at_ i (.inside (P.start x))).worker) (hsh : s'.shared = s.shared) : Holds I s' := by
  constructor
  · intro j k hj
    rw [hw] at hj
    by_cases e : j = i
    · subst e
      rw [worker_at_self] at hj
      cases hj
      rw [hsh]
      exact hI.start x _ (h.outside hnone)
    · rw [worker_at_ne e] at hj
      exact absurd ⟨k, hj⟩ (hnone j)
  · intro hout
    exact absurd ⟨P.start x, by rw [hw, worker_at_self]⟩ (hout i)

theorem Holds.leave (h : Holds I s) (hI : Keeps P I) (hex : Exclusive key s) {k : κ} (hi : s.worker i = .inside k)
    (hd : P.done k) {s' : State K ι ξ κ σ} (hw : s'.worker = (s.at_ i .idle).worker) (hsh : s'.shared = s.shared) :
    Holds I s' := by
  constructor
  · intro j k' hj
    rw [hw] at hj
    by_cases e : j = i
    · subst e
      rw [worker_at_self] at hj
      cases hj
    · rw [worker_at_ne e] at hj
      exact absurd (hex.only hi ⟨k', hj⟩) e
  · intro _
    rw [hsh]
    exact hI.done k _ (h.inside i k hi) hd

theorem holds_step (hI : Keeps P I) {s' : State K ι ξ κ σ} (hs : CalmStep P key flag s s') (hex : Exclusive key s)
    (h : Holds I s) : Holds I s' := by
  obtain ⟨hs, hc⟩ := hs
  cases hs with
  | wait i x n hi hm =>
    constructor
    · intro j k hj
      by_cases e : j = i
      · subst e
        rw [show (s.at_ j (.wait n x)).worker j = .wait n x from worker_at_self] at hj
        cases hj
      · rw [show (s.at_ i (.wait n x)).worker j = s.worker j from worker_at_ne e] at hj
        exact h.inside j k hj
    · intro hout
      obtain ⟨_, j, k, hj⟩ := hex.entry n hm
      have e : j ≠ i := ne_of_worker hj hi nofun
      exact absurd ⟨k, (worker_at_ne e).trans hj⟩ (hout j)
  | pass i x hi hm => exact absurd hm hex.noFlag
  | create i x hi hm =>
    have hcalm := hc ⟨i, hi, by simp [State.at_, State.lock]⟩
    exact h.enter hI (fun j hj => hcalm.2 ⟨j, hj⟩ hm) x rfl rfl
  | acquire i x n hi hl => exact h.enter hI (hex.free hi hl).2 x rfl rfl
  | work i k k' sh hi hw =>
    constructor
    · intro j k'' hj
      by_cases e : j = i
      · subst e
        rw [show (s.at_ j (.inside k')).worker j = .inside k' from worker_at_self] at hj
        cases hj
        exact hI.work k _ k' sh (h.inside j k hi) hw
      · rw [show (s.at_ i (.inside k')).worker j = s.worker j from worker_at_ne e] at hj
        exact absurd (hex.only hi ⟨k'', hj⟩) e
    · intro hout
      exact absurd ⟨k', worker_at_self⟩ (hout i)
  | unlock i k n hi hd hm hl => exact h.leave hI hex hi hd rfl rfl
  | unlockFlag i k hi hd hm => exact h.leave hI hex hi hd rfl rfl
  | unlockNone i k hi hd hm => exact h.leave hI hex hi hd rfl rfl

end

/-- What one worker's program keeps, a calm run of any number of workers keeps. -/
theorem keeps_run (hk : flag ≠ key) {I : Option κ → σ → Prop} (hI : Keeps P I) {sh : σ} (h0 : I none sh)
    {s : State K ι ξ κ σ} (h : Relation.ReflTransGen (CalmStep P key flag) (init sh) s) : Holds I s := by
  induction h with
  | refl =>
    refine ⟨?_, fun _ => h0⟩
    intro i k e
    cases e
  | tail hrun hs ih => exact holds_step hI hs (calm_run P key flag hk hrun).1 ih

/-! ## Any other call -/

def Broken (s : State K ι ξ κ σ) : Prop :=
  (∃ i j, i ≠ j ∧ s.Inside i ∧ s.Inside j) ∨ ∃ i, s.Stranded i

def Ends : Prop :=
  ∀ k sh, ∃ k' sh', Relation.ReflTransGen (fun a b : κ × σ => P.work a.1 a.2 b.1 b.2) (k, sh) (k', sh') ∧ P.done k'

section
variable {P key flag} {s : State K ι ξ κ σ} {i j : ι}

variable (key flag) in
/-- A worker inside runs to the end of its program; nothing else of the lock changes. -/
theorem run_to_end (hend : Ends P) {k : κ} (hi : s.worker i = .inside k) :
    ∃ k' sh', P.done k' ∧
      Relation.ReflTransGen (Step P key flag) s { s.at_ i (.inside k') with shared := sh' } := by
  obtain ⟨k', sh', hrun, hd⟩ := hend k s.shared
  refine ⟨k', sh', hd, ?_⟩
  have hgen : ∀ a b : κ × σ, Relation.ReflTransGen (fun a b : κ × σ => P.work a.1 a.2 b.1 b.2) a b →
      a = (k, s.shared) → Relation.ReflTransGen (Step P key flag) s { s.at_ i (.inside b.1) with shared := b.2 } := by
    intro a b hab ha
    induction hab with
    | refl =>
      subst ha
      have : ({ s.at_ i (.inside k) with shared := s.shared } : State K ι ξ κ σ) = s := by
        simp [State.at_, ← hi]
      rw [this]
    | tail _ hw ih =>
      rename_i b c _
      refine ih.tail ?_
      have hstep : Step P key flag { s.at_ i (.inside b.1) with shared := b.2 } _ :=
        .work _ i b.1 c.1 c.2 worker_at_self hw
      have : ({ ({ s.at_ i (.inside b.1) with shared := b.2 } : State K ι ξ κ σ).at_ i (.inside c.1) with shared := c.2 } :
          State K ι ξ κ σ) = { s.at_ i (.inside c.1) with shared := c.2 } := by
        simp [State.at_]
      rwa [this] at hstep
  exact hgen _ _ hrun rfl

variable (key flag) in
/-- Two workers wait for the mutex of the one inside: the first gets it, and finds no entry
    to unlock. -/
theorem strand_reachable (hend : Ends P) {a : ι} {k : κ} {n : Nat} {x y : ξ} (ha : s.worker a = .inside k)
    (hi : s.worker i = .wait n x) (hj : s.worker j = .wait n y) (hij : i ≠ j) (hm : s.map.get key = some (.mutex n))
    (hl : s.locked n = true) (honly : ∀ b, s.Inside b → b = a) :
    ∃ t, Relation.ReflTransGen (Step P key flag) s t ∧ t.Stranded i := by
  have hai : i ≠ a := ne_of_worker hi ha nofun
  have haj : j ≠ a := ne_of_worker hj ha nofun
  obtain ⟨k1, sh1, hd1, hrun1⟩ := run_to_end key flag hend ha
  generalize hs1 : ({ s.at_ a (.inside k1) with shared := sh1 } : State K ι ξ κ σ) = s1 at hrun1
  have hw1 : s1.worker = (s.at_ a (.inside k1)).worker := by rw [← hs1]
  have hrun2 := hrun1.tail (Step.unlock s1 a k1 n (by rw [hw1, worker_at_self]) hd1 (by rw [← hs1]; exact hm)
    (by rw [← hs1]; exact hl))
  generalize hs2 : ({ (s1.at_ a .idle).lock n false with map := (s1.map.del flag).del key } : State K ι ξ κ σ) = s2 at hrun2
  have hw2 : s2.worker = (s.at_ a .idle).worker := by
    rw [← hs2]
    show (s1.at_ a .idle).worker = _
    simp [State.at_, hw1]
  have hj2 : s2.worker j = .wait n y := by rw [hw2, worker_at_ne haj, hj]
  have hrun3 := hrun2.tail (Step.acquire s2 j y n hj2
    (by rw [← hs2]; exact Function.update_self _ _ _))
  obtain ⟨k4, sh4, hd4, hrun4⟩ := run_to_end key flag (s := (s2.at_ j (.inside (P.start y))).lock n true) (i := j) hend
    worker_at_self
  have hnone : s2.map.get key = none := by
    rw [← hs2]
    exact Store.get_del_self _ _
  have hrun5 := (hrun3.trans hrun4).tail (Step.unlockNone _ j k4 worker_at_self hd4 hnone)
  refine ⟨_, hrun5, n, x, ?_, Function.update_self _ _ _, ?_⟩
  · simp [State.at_, State.lock, hij, hw2, hai, hi]
  · intro b hb
    obtain ⟨k, hb⟩ := hb
    simp only [State.at_, State.lock, hw2, Function.update_apply] at hb
    split_ifs at hb with h1 h2
    exact h2 (honly b ⟨k, hb⟩)

end

/-- From a state of a calm run, a call of `LockKey` that is not calm can lead to two workers
    inside, or to one that waits for good. -/
theorem uncalm_call_breaks (hend : Ends P) (hk : flag ≠ key) {s s' : State K ι ξ κ σ} (h : Exclusive key s)
    (hs : Step P key flag s s') (hcall : ∃ i, s.worker i = .idle ∧ s'.worker i ≠ .idle) (hcalm : ¬ Calm key s) :
    ∃ t, Relation.ReflTransGen (Step P key flag) s' t ∧ Broken t := by
  -- a step of a worker that is not idle calls nothing
  have hother : ∀ (i : ι) (pc : Pc ξ κ), s.worker i ≠ .idle → s'.worker = (s.at_ i pc).worker → False := by
    intro i pc hi hw
    obtain ⟨j, hj, hj'⟩ := hcall
    rw [hw] at hj'
    by_cases e : j = i
    · subst e
      exact hi hj
    · rw [worker_at_ne e] at hj'
      exact hj' hj
  cases hs with
  | wait i x n hi hm =>
    -- the one inside made the mutex of the map, so someone waits for it already
    obtain ⟨hl, a, k, ha⟩ := h.entry n hm
    have hwaits : ∃ j, s.Waits j := by
      by_contra hno
      refine hcalm ⟨fun j hj => hno ⟨j, hj⟩, fun _ e => ?_⟩
      rw [hm] at e
      cases e
    obtain ⟨j, m, y, hj⟩ := hwaits
    obtain rfl : m = n := by
      rcases h.waited j m y hj with e | ⟨e, _⟩
      · rw [hm] at e
        cases e
        rfl
      · rw [hm] at e
        cases e
    have hij : i ≠ j := ne_of_worker hi hj nofun
    have hai : a ≠ i := ne_of_worker ha hi nofun
    obtain ⟨t, hrun, ht⟩ := strand_reachable key flag hend
      (s := { s.at_ i (.wait m x) with map := s.map.put flag .flag }) (a := a) (k := k)
      ((worker_at_ne hai).trans ha) worker_at_self ((worker_at_ne hij.symm).trans hj) hij
      ((Store.get_put_ne _ _ hk.symm).trans hm) hl (fun b hb => h.only ha (inside_of_at nofun hb).2)
    exact ⟨t, hrun, Or.inr ⟨i, ht⟩⟩
  | pass i x hi hm => exact absurd hm h.noFlag
  | create i x hi hm =>
    by_cases hin : ∃ j, s.Inside j
    · obtain ⟨j, k, hj⟩ := hin
      have e : j ≠ i := ne_of_worker hj hi nofun
      exact ⟨_, .refl, Or.inl ⟨j, i, e, ⟨k, (worker_at_ne e).trans hj⟩, P.start x, worker_at_self⟩⟩
    · have hwaits : ∃ j, s.Waits j := by
        by_contra hno
        exact hcalm ⟨fun j hj => hno ⟨j, hj⟩, fun h' => absurd h' hin⟩
      obtain ⟨j, n, y, hj⟩ := hwaits
      have e : j ≠ i := ne_of_worker hj hi nofun
      have hfree : s.locked n = false := by
        rcases h.waited j n y hj with e | ⟨_, hl, _⟩
        · rw [hm] at e
          cases e
        · exact hl
      -- the waiter's mutex is an older one, and it is free
      have hn : n ≠ s.next := Nat.ne_of_lt (h.made j n y hj)
      refine ⟨_, .single (Step.acquire _ j y n ((worker_at_ne e).trans hj) ((Function.update_of_ne hn _ _).trans hfree)),
        Or.inl ⟨j, i, e, ⟨P.start y, worker_at_self⟩, P.start x, (worker_at_ne e.symm).trans worker_at_self⟩⟩
  | acquire i x n hi hl => exact (hother i _ (by rw [hi]; simp) rfl).elim
  | work i k k' sh hi hw => exact (hother i _ (by rw [hi]; simp) rfl).elim
  | unlock i k n hi hd hm hl => exact (hother i _ (by rw [hi]; simp) rfl).elim
  | unlockFlag i k hi hd hm => exact (hother i _ (by rw [hi]; simp) rfl).elim
  | unlockNone i k hi hd hm => exact (hother i _ (by rw [hi]; simp) rfl).elim

end GoFastdfs.KeyLock
