/-
  GoFastdfs.Worklist — entries that are worked off and may leave copies of themselves.

  Entries wait in a queue. A worker takes one, in whatever order the workers come to it,
  and its turn puts copies at the end of the queue and something out. What a turn does is a
  relation: the same entry may be worked off in many ways.

  A weight that a turn pays for bounds every run: `Run.budget` bounds what is put out,
  `Run.size_le` the number of turns and of entries still waiting. In the other direction an
  entry yields what its turn puts out and what its copies yield (`Yields.step`).
-/

import Mathlib.Algebra.BigOperators.Group.List.Basic
import Mathlib.Algebra.Order.Ring.Int
import Mathlib.Tactic.Common

namespace GoFastdfs.Worklist

variable {α β : Type}

structure State (α β : Type) where
  pending : List α
  /-- What the turns have put out. -/
  done : List β

def State.one (a : α) : State α β := ⟨[a], []⟩

section
variable (turn : α → List α → List β → Prop)

inductive Step : State α β → State α β → Prop
  | take (front back : List α) (a : α) (done : List β) (copies : List α) (out : List β) : turn a copies out →
      Step ⟨front ++ a :: back, done⟩ ⟨front ++ back ++ copies, done ++ out⟩

/-- A run and the number of its turns. -/
inductive Run : Nat → State α β → State α β → Prop
  | nil (s : State α β) : Run 0 s s
  | snoc {n : Nat} {s t u : State α β} : Run n s t → Step turn t u → Run (n + 1) s u

/-- Working off `a` can put out `k` more of the kind `q`. -/
def Yields (q : β → Bool) (a : α) (k : Nat) : Prop :=
  ∀ front back done, ∃ n done', Run turn n ⟨front ++ a :: back, done⟩ ⟨front ++ back, done'⟩ ∧
    done.countP q + k ≤ done'.countP q

end

variable {turn : α → List α → List β → Prop}

/-! ## Bounds -/

section
variable {P : α → Prop} (hP : ∀ a copies out, P a → turn a copies out → ∀ b ∈ copies, P b)
include hP

/-- What copies keep holds of every entry. -/
theorem Run.pending {n : Nat} {s t : State α β} (h : Run turn n s t) (hs : ∀ a ∈ s.pending, P a) : ∀ a ∈ t.pending, P a := by
  induction h with
  | nil => exact hs
  | snoc _ hstep ih =>
    cases hstep with
    | take front back a done copies out hturn =>
      intro b hb
      have hkept := ih hs
      rcases List.mem_append.mp hb with hb | hb
      · exact hkept b (by simpa using (List.mem_append.mp hb).imp_right Or.inr)
      · exact hP a copies out (hkept a (by simp)) hturn b hb

/-- If a turn puts out no more than the weight that is lost, a run does not either. -/
theorem Run.budget (w : α → Nat) (q : β → Bool)
    (hw : ∀ a copies out, P a → turn a copies out → (copies.map w).sum + out.countP q ≤ w a)
    {n : Nat} {s t : State α β} (h : Run turn n s t) (hs : ∀ a ∈ s.pending, P a) :
    (t.pending.map w).sum + t.done.countP q ≤ (s.pending.map w).sum + s.done.countP q := by
  induction h with
  | nil s => exact Nat.le_refl _
  | snoc hrun hstep ih =>
    cases hstep with
    | take front back a done copies out hturn =>
      have hpay := hw a copies out (hrun.pending hP hs a (by simp)) hturn
      have hrest := ih hs
      simp only [List.map_append, List.map_cons, List.sum_append, List.sum_cons, List.countP_append] at hrest ⊢
      omega

/-- If every turn costs weight, the turns and what is left waiting are bounded. -/
theorem Run.size_le (w : α → Nat) (hw : ∀ a copies out, P a → turn a copies out → (copies.map w).sum < w a)
    {n : Nat} {s t : State α β} (h : Run turn n s t) (hs : ∀ a ∈ s.pending, P a) :
    n + (t.pending.map w).sum ≤ (s.pending.map w).sum := by
  induction h with
  | nil => exact Nat.le_of_eq (Nat.zero_add _)
  | snoc hrun hstep ih =>
    cases hstep with
    | take front back a done copies out hturn =>
      have hpay := hw a copies out (hrun.pending hP hs a (by simp)) hturn
      have hrest := ih hs
      simp only [List.map_append, List.map_cons, List.sum_append, List.sum_cons] at hrest ⊢
      omega

end

/-! ## Yields -/

theorem Run.trans {n m : Nat} {s t u : State α β} (h : Run turn n s t) (h' : Run turn m t u) : Run turn (n + m) s u := by
  induction h' with
  | nil => exact h
  | snoc _ hstep ih => exact (ih h).snoc hstep

theorem Yields.mono {q : β → Bool} {a : α} {j k : Nat} (h : Yields turn q a k) (hjk : j ≤ k) : Yields turn q a j := by
  intro front back done
  obtain ⟨n, done', hrun, hk⟩ := h front back done
  exact ⟨n, done', hrun, by omega⟩

/-- A list of entries yields the sum of what they yield. -/
theorem Yields.all {q : β → Bool} {l : List α} {ks : List Nat} (h : List.Forall₂ (Yields turn q) l ks) (front : List α)
    (done : List β) : ∃ n done', Run turn n ⟨front ++ l, done⟩ ⟨front, done'⟩ ∧ done.countP q + ks.sum ≤ done'.countP q := by
  induction h generalizing done with
  | nil => exact ⟨0, done, by simpa using Run.nil _, by simp⟩
  | cons ha _ ih =>
    obtain ⟨n, done', hrun, hk⟩ := ha front _ done
    obtain ⟨m, done'', hrun', hk'⟩ := ih done'
    refine ⟨n + m, done'', hrun.trans hrun', ?_⟩
    rw [List.sum_cons]
    omega

theorem Yields.step {q : β → Bool} {a : α} {copies : List α} {out : List β} {ks : List Nat} (h : turn a copies out)
    (hc : List.Forall₂ (Yields turn q) copies ks) : Yields turn q a (out.countP q + ks.sum) := by
  intro front back done
  have hfirst : Run turn 1 ⟨front ++ a :: back, done⟩ ⟨front ++ back ++ copies, done ++ out⟩ :=
    (Run.nil _).snoc (.take front back a done copies out h)
  obtain ⟨n, done', hrun, hk⟩ := Yields.all hc (front ++ back) (done ++ out)
  refine ⟨1 + n, done', hfirst.trans hrun, ?_⟩
  rw [List.countP_append] at hk
  omega

/-- What an entry yields is put out by a run that works it off alone. -/
theorem Yields.run {q : β → Bool} {a : α} {k : Nat} (h : Yields turn q a k) :
    ∃ n t, Run turn n (State.one a) t ∧ t.pending = [] ∧ k ≤ t.done.countP q := by
  obtain ⟨n, done', hrun, hk⟩ := h [] [] []
  exact ⟨n, _, hrun, rfl, by simpa using hk⟩

end GoFastdfs.Worklist
