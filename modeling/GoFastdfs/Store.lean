/-
  GoFastdfs.Store — a finite map with the operations of an ordered key-value database:
  point reads and writes, a scan in key order of the keys a test accepts, and what a
  total over all entries becomes under a write (`total_put`, `total_del`). Two stores with
  related values stay so under the same writes, and their scans go side by side (`Rel.scan`).
-/

import Mathlib.Algebra.Order.Ring.Int
import Mathlib.Data.List.AList
import Mathlib.Data.List.Sort
import Mathlib.Algebra.Order.BigOperators.Group.List

namespace GoFastdfs

abbrev Store (κ β : Type) := AList (fun _ : κ => β)

namespace Store

variable {κ β : Type} [DecidableEq κ]

def get (s : Store κ β) (k : κ) : Option β := s.lookup k

def has (s : Store κ β) (k : κ) : Bool := (s.get k).isSome

def put (s : Store κ β) (k : κ) (v : β) : Store κ β := s.insert k v

def del (s : Store κ β) (k : κ) : Store κ β := s.erase k

@[simp] theorem get_empty (k : κ) : get (∅ : Store κ β) k = none := AList.lookup_empty k

@[simp] theorem get_put_self (s : Store κ β) (k : κ) (v : β) : (s.put k v).get k = some v := AList.lookup_insert s

theorem get_put_ne (s : Store κ β) {k k' : κ} (v : β) (h : k' ≠ k) : (s.put k v).get k' = s.get k' :=
  AList.lookup_insert_ne h

theorem get_put (s : Store κ β) (k k' : κ) (v : β) :
    (s.put k v).get k' = if k' = k then some v else s.get k' := by
  split
  · rename_i h; subst h; exact get_put_self s _ v
  · exact get_put_ne s v ‹_›

@[simp] theorem get_del_self (s : Store κ β) (k : κ) : (s.del k).get k = none := AList.lookup_erase k s

theorem get_del_ne (s : Store κ β) {k k' : κ} (h : k' ≠ k) : (s.del k).get k' = s.get k' :=
  AList.lookup_erase_ne h

theorem get_del (s : Store κ β) (k k' : κ) : (s.del k).get k' = if k' = k then none else s.get k' := by
  split
  · rename_i h; subst h; exact get_del_self s _
  · exact get_del_ne s ‹_›

theorem get_del_some {s : Store κ β} {k k' : κ} {v : β} (h : (s.del k).get k' = some v) : k' ≠ k ∧ s.get k' = some v := by
  rw [get_del] at h
  split at h
  · cases h
  · exact ⟨‹_›, h⟩

theorem mem_keys {s : Store κ β} {k : κ} : k ∈ s.keys ↔ (s.get k).isSome = true :=
  AList.mem_keys.symm.trans AList.lookup_isSome.symm

theorem get_put_put_some {s : Store κ β} {a b k : κ} {v w : β} (h : ((s.put a v).put b v).get k = some w) :
    (k = a ∨ k = b) ∧ w = v ∨ s.get k = some w := by
  rw [get_put, get_put] at h
  split at h
  · exact Or.inl ⟨Or.inr ‹_›, (Option.some.inj h).symm⟩
  split at h
  · exact Or.inl ⟨Or.inl ‹_›, (Option.some.inj h).symm⟩
  · exact Or.inr h

theorem has_iff {s : Store κ β} {k : κ} : s.has k = true ↔ ∃ v, s.get k = some v := Option.isSome_iff_exists

theorem has_eq_false {s : Store κ β} {k : κ} : s.has k = false ↔ s.get k = none := by
  simp [has]

theorem mem_entries {s : Store κ β} {k : κ} {v : β} : (⟨k, v⟩ : Sigma fun _ : κ => β) ∈ s.entries ↔ s.get k = some v :=
  AList.mem_lookup_iff.symm

/-! ## Counting -/

def count (s : Store κ Nat) (k : κ) : Store κ Nat := s.put k ((s.get k).getD 0 + 1)

section Scan

variable [LinearOrder κ]

/-- The entries whose key passes `p`, in key order. -/
def scan (s : Store κ β) (p : κ → Bool) : List (κ × β) :=
  ((s.entries.filter fun e => p e.1).map fun e => (e.1, e.2)).insertionSort fun a b => a.1 ≤ b.1

omit [DecidableEq κ] in
theorem scan_perm (s : Store κ β) (p : κ → Bool) :
    (s.scan p).Perm ((s.entries.filter fun e => p e.1).map fun e => (e.1, e.2)) :=
  List.perm_insertionSort _ _

theorem mem_scan {s : Store κ β} {p : κ → Bool} {x : κ × β} :
    x ∈ s.scan p ↔ s.get x.1 = some x.2 ∧ p x.1 = true := by
  rw [(scan_perm s p).mem_iff]
  simp only [List.mem_map, List.mem_filter]
  constructor
  · intro hx
    obtain ⟨⟨k, v⟩, ⟨he, hp⟩, rfl⟩ := hx
    exact ⟨mem_entries.mp he, hp⟩
  · intro hx
    obtain ⟨he, hp⟩ := hx
    exact ⟨⟨x.1, x.2⟩, ⟨mem_entries.mpr he, hp⟩, rfl⟩

omit [LinearOrder κ] [DecidableEq κ] in
theorem nodup_entries (s : Store κ β) : s.entries.Nodup := s.nodupKeys.nodup

omit [DecidableEq κ] in
theorem nodup_scan (s : Store κ β) (p : κ → Bool) : (s.scan p).Nodup := by
  rw [(scan_perm s p).nodup_iff]
  apply List.Nodup.map
  · intro a b h
    obtain ⟨k, v⟩ := a
    obtain ⟨k', v'⟩ := b
    cases h
    rfl
  · exact (nodup_entries s).filter _

theorem scan_sorted (s : Store κ β) (p : κ → Bool) : (s.scan p).Pairwise fun a b => a.1 < b.1 := by
  have hle : (s.scan p).Pairwise fun a b => a.1 ≤ b.1 := by
    have : Std.Total (α := κ × β) fun a b => a.1 ≤ b.1 := ⟨fun a b => le_total a.1 b.1⟩
    have : IsTrans (κ × β) fun a b => a.1 ≤ b.1 := ⟨fun a b c hab hbc => le_trans hab hbc⟩
    exact List.pairwise_insertionSort _ _
  refine (hle.and (nodup_scan s p)).imp_of_mem ?_
  intro a b ha hb hab
  refine lt_of_le_of_ne hab.1 fun hkey => hab.2 (Prod.ext hkey ?_)
  have hget := (mem_scan.mp ha).1
  rw [hkey, (mem_scan.mp hb).1] at hget
  exact (Option.some.inj hget).symm

end Scan

/-! ## Two stores entry by entry -/

section Rel

variable {γ : Type} {R : β → γ → Prop}

/-- The stores have the same keys, with values that `R` relates. -/
def Rel (R : β → γ → Prop) (s : Store κ β) (t : Store κ γ) : Prop := ∀ k, Option.Rel R (s.get k) (t.get k)

theorem rel_empty : Rel R (∅ : Store κ β) (∅ : Store κ γ) := fun k => by
  rw [get_empty, get_empty]
  exact .none

theorem Rel.put {s : Store κ β} {t : Store κ γ} (h : Rel R s t) (k : κ) {v : β} {w : γ} (hvw : R v w) :
    Rel R (s.put k v) (t.put k w) := by
  intro k'
  rw [get_put, get_put]
  split_ifs
  · exact .some hvw
  · exact h k'

theorem Rel.del {s : Store κ β} {t : Store κ γ} (h : Rel R s t) (k : κ) : Rel R (s.del k) (t.del k) := by
  intro k'
  rw [get_del, get_del]
  split_ifs
  · exact .none
  · exact h k'

theorem Rel.isSome {s : Store κ β} {t : Store κ γ} (h : Rel R s t) (k : κ) : (s.get k).isSome = (t.get k).isSome := by
  have hk := h k
  revert hk
  cases s.get k <;> cases t.get k <;> intro hk <;> first | rfl | cases hk

theorem Rel.has {s : Store κ β} {t : Store κ γ} (h : Rel R s t) (k : κ) : s.has k = t.has k := h.isSome k

omit [DecidableEq κ] in
theorem forall₂_of_keys : ∀ {l : List (κ × β)} {m : List (κ × γ)}, l.map Prod.fst = m.map Prod.fst →
    (∀ x ∈ l, ∀ y ∈ m, x.1 = y.1 → R x.2 y.2) → List.Forall₂ (fun x y => x.1 = y.1 ∧ R x.2 y.2) l m
  | [], [], _, _ => .nil
  | [], y :: m, h, _ => by cases h
  | x :: l, [], h, _ => by cases h
  | x :: l, y :: m, h, hR => by
    obtain ⟨hxy, hlm⟩ := List.cons.inj h
    refine .cons ⟨hxy, hR x List.mem_cons_self y List.mem_cons_self hxy⟩ (forall₂_of_keys hlm ?_)
    exact fun a ha b hb => hR a (List.mem_cons_of_mem _ ha) b (List.mem_cons_of_mem _ hb)

/-- The same scan of both goes through related entries. -/
theorem Rel.scan [LinearOrder κ] {s : Store κ β} {t : Store κ γ} (h : Rel R s t) (p : κ → Bool) :
    List.Forall₂ (fun x y => x.1 = y.1 ∧ R x.2 y.2) (s.scan p) (t.scan p) := by
  have hmem : ∀ {δ : Type} (u : Store κ δ) (k : κ), k ∈ (u.scan p).map Prod.fst ↔ (u.get k).isSome = true ∧ p k = true := by
    intro δ u k
    rw [Option.isSome_iff_exists, List.mem_map]
    constructor
    · intro hp
      obtain ⟨x, hx, rfl⟩ := hp
      exact ⟨⟨x.2, (mem_scan.mp hx).1⟩, (mem_scan.mp hx).2⟩
    · intro hp
      obtain ⟨⟨v, hv⟩, hk⟩ := hp
      exact ⟨(k, v), mem_scan.mpr ⟨hv, hk⟩, rfl⟩
  have hsorted : ∀ {δ : Type} (u : Store κ δ), ((u.scan p).map Prod.fst).Pairwise (· < ·) :=
    fun u => List.pairwise_map.mpr (scan_sorted u p)
  refine forall₂_of_keys ((hsorted s).eq_of_mem_iff (hsorted t) fun k => ?_) fun x hx y hy hkey => ?_
  · rw [hmem s k, hmem t k, h.isSome k]
  · have hk := h x.1
    rw [(mem_scan.mp hx).1, hkey, (mem_scan.mp hy).1] at hk
    cases hk with
    | some hR => exact hR

end Rel

/-! ## The first of each kind -/

section Firsts

variable {α γ : Type} [DecidableEq γ] (kind : α → γ)

def firsts : List α → List α
  | [] => []
  | a :: l => a :: (firsts l).filter (kind · ≠ kind a)

variable {kind}

theorem firsts_sublist : ∀ l : List α, (firsts kind l).Sublist l
  | [] => List.Sublist.slnil
  | a :: l => (List.filter_sublist.trans (firsts_sublist l)).cons_cons a

theorem nodup_firsts : ∀ l : List α, ((firsts kind l).map kind).Nodup
  | [] => List.nodup_nil
  | a :: l => by
    rw [firsts, List.map_cons, List.nodup_cons]
    refine ⟨fun h => ?_, (nodup_firsts l).sublist (List.filter_sublist.map _)⟩
    obtain ⟨x, hx, hkind⟩ := List.mem_map.mp h
    exact absurd hkind (by simpa using (List.mem_filter.mp hx).2)

/-- Every element has one of its kind among the first ones, itself or one before it. -/
theorem exists_firsts {R : α → α → Prop} : ∀ {l : List α} {x : α}, l.Pairwise R → x ∈ l →
    ∃ y ∈ firsts kind l, kind y = kind x ∧ (y = x ∨ R y x)
  | a :: l, x, hl, hx => by
    obtain ⟨hbefore, hl⟩ := List.pairwise_cons.mp hl
    by_cases hkind : kind x = kind a
    · refine ⟨a, List.mem_cons_self, hkind.symm, ?_⟩
      rcases List.mem_cons.mp hx with h | h
      · exact Or.inl h.symm
      · exact Or.inr (hbefore x h)
    · have hmem : x ∈ l := (List.mem_cons.mp hx).resolve_left fun e => hkind (e ▸ rfl)
      obtain ⟨y, hy, hyx, horder⟩ := exists_firsts hl hmem
      exact ⟨y, List.mem_cons_of_mem _ (List.mem_filter.mpr ⟨hy, by simpa [hyx] using hkind⟩), hyx, horder⟩

end Firsts

/-! ## Totals -/

def total (f : κ → β → Int) (s : Store κ β) : Int := (s.entries.map fun e => f e.1 e.2).sum

def share (f : κ → β → Int) (s : Store κ β) (k : κ) : Int :=
  match s.get k with
  | some v => f k v
  | none => 0

theorem share_some {f : κ → β → Int} {s : Store κ β} {k : κ} {v : β} (h : s.get k = some v) : share f s k = f k v := by
  simp [share, h]

theorem share_none {f : κ → β → Int} {s : Store κ β} {k : κ} (h : s.get k = none) : share f s k = 0 := by
  simp [share, h]

theorem total_del (f : κ → β → Int) (s : Store κ β) (k : κ) : total f (s.del k) = total f s - share f s k := by
  cases h : s.get k with
  | none =>
    have hn : k ∉ s.keys := AList.mem_keys.not.mp (AList.lookup_eq_none.mp h)
    have : (s.del k).entries = s.entries := List.kerase_of_notMem_keys hn
    simp [total, this, share_none h]
  | some v =>
    have hk : k ∈ s.entries.keys := List.dlookup_isSome.mp (by
      show (AList.lookup k s).isSome = true
      rw [show AList.lookup k s = some v from h]; rfl)
    obtain ⟨b, l₁, l₂, hn, hl, he⟩ := List.exists_of_kerase hk
    have hb : b = v := by
      have : (⟨k, b⟩ : Sigma fun _ : κ => β) ∈ s.entries := by rw [hl]; simp
      exact Option.some.inj ((mem_entries.mp this).symm.trans h)
    subst hb
    have hd : (s.del k).entries = l₁ ++ l₂ := he
    simp only [total, hd, hl, share_some h, List.map_append, List.map_cons, List.sum_append, List.sum_cons]
    omega

theorem total_put (f : κ → β → Int) (s : Store κ β) (k : κ) (v : β) :
    total f (s.put k v) = total f s - share f s k + f k v := by
  have h : total f (s.put k v) = f k v + total f (s.del k) := by
    have : (s.put k v).entries = ⟨k, v⟩ :: (s.del k).entries := AList.entries_insert
    simp [total, this]
  rw [h, total_del]
  omega

omit [DecidableEq κ] in
@[simp] theorem total_empty (f : κ → β → Int) : total f (∅ : Store κ β) = 0 := rfl

end Store

end GoFastdfs
