/-
  GoFastdfs.Backpressure — a bounded queue whose consumers also feed it.

  Consumers take items off the queue and run a program on each; a program may append
  items to the same queue. Appending waits while the queue, with a tenth of its capacity
  to spare, is over its capacity, and then sends, which waits for a free slot. Producers
  only append. A queue without capacity passes an item straight to a waiting consumer.

  Nobody but a consumer shortens the queue, so when all of them wait inside their own
  append nothing moves. Proved: where the queue, with what producers are sending, has room
  whenever all consumers come to append, no run gets there (`never_wedged`); a step that
  leaves no room can always be followed by a wedge (`roomless_step_wedges`); and one
  producer and a program that appends at once reach one (`wedge_reachable`).
-/

import Mathlib.Algebra.BigOperators.Ring.Finset
import Mathlib.Logic.Relation
import Mathlib.Tactic.Common

namespace GoFastdfs.Backpressure

variable {α κ ι ο : Type}

inductive Next (α κ : Type) where
  | work (k : κ)
  | append (a : α) (k : κ)
  | done

structure Program (α κ : Type) where
  start : α → κ
  next : κ → Next α κ → Prop

/-- Where a consumer is: at the queue, in its program, or inside an append, before or after
    the wait for room. -/
inductive Pc (α κ : Type) where
  | receive
  | run (k : κ)
  | poll (a : α) (k : κ)
  | send (a : α) (k : κ)

def Pc.Inside : Pc α κ → Prop
  | .poll _ _ => True
  | .send _ _ => True
  | _ => False

def Pc.Sends : Pc α κ → Prop
  | .send _ _ => True
  | _ => False

inductive Producer (α : Type) where
  | idle
  | poll (a : α)
  | send (a : α)

def Producer.sends : Producer α → Nat
  | .send _ => 1
  | _ => 0

structure State (α κ ι ο : Type) where
  queue : List α
  consumer : ι → Pc α κ
  producer : ο → Producer α

def crowded (cap len : Nat) : Prop := cap < len + cap / 10

/-- A consumer waits inside its append for the queue to become shorter. -/
def Waiting (cap : Nat) (s : State α κ ι ο) (i : ι) : Prop :=
  match s.consumer i with
  | .poll _ _ => crowded cap s.queue.length
  | .send _ _ => cap ≤ s.queue.length
  | _ => False

/-- There are consumers, and all of them wait. -/
def Wedged (cap : Nat) (s : State α κ ι ο) : Prop := Nonempty ι ∧ ∀ i, Waiting cap s i

section
variable {cap : Nat} {s : State α κ ι ο} {i : ι}

theorem inside_of_waiting (h : Waiting cap s i) : (s.consumer i).Inside := by
  unfold Waiting at h
  cases hc : s.consumer i <;> simp_all [Pc.Inside]

theorem full_of_sends (h : Waiting cap s i) (hi : (s.consumer i).Sends) : cap ≤ s.queue.length := by
  unfold Waiting at h
  cases hc : s.consumer i <;> simp_all [Pc.Sends]

theorem crowded_of_waiting (h : Waiting cap s i) : crowded cap s.queue.length ∨ cap ≤ s.queue.length := by
  unfold Waiting at h
  cases hc : s.consumer i <;> simp_all

theorem waiting_of_inside (h : (s.consumer i).Inside) (hp : crowded cap s.queue.length)
    (hs : (s.consumer i).Sends → cap ≤ s.queue.length) : Waiting cap s i := by
  unfold Waiting
  cases hc : s.consumer i <;> simp_all [Pc.Inside, Pc.Sends]

end

section
variable [Fintype ο]

def State.sending (s : State α κ ι ο) : Nat := ∑ j, (s.producer j).sends

theorem exists_send {s : State α κ ι ο} (h : 0 < s.sending) : ∃ j a, s.producer j = .send a := by
  obtain ⟨j, -, hj⟩ := Finset.exists_ne_zero_of_sum_ne_zero (Nat.pos_iff_ne_zero.mp h)
  cases hp : s.producer j with
  | send a => exact ⟨j, a, hp⟩
  | idle => rw [hp] at hj; exact absurd rfl hj
  | poll a => rw [hp] at hj; exact absurd rfl hj

end

/-! ## Room for one more -/

section
variable [Fintype ο] (cap : Nat)

/-- With `len` entries on the queue and `snd` more on their way, a consumer that appends still
    gets through: past its wait, unless some consumer already is, and onto the queue. -/
def Fits (cap len snd : Nat) (past : Prop) : Prop := len + snd < cap ∧ (past ∨ ¬ crowded cap (len + snd))

/-- The step leaves room on the queue: the last consumer to start appending finds some, and
    so does a producer that comes past its wait while all consumers append. -/
structure Roomy (s s' : State α κ ι ο) : Prop where
  enter : ∀ i, ¬ (s.consumer i).Inside → (s'.consumer i).Inside → (∀ j, j ≠ i → (s.consumer j).Inside) →
    Fits cap s.queue.length s.sending (∃ j, (s.consumer j).Sends)
  offer : ∀ j a, s.producer j = .poll a → s'.producer j = .send a → (∀ i, (s.consumer i).Inside) →
    Fits cap s.queue.length (s.sending + 1) (∃ i, (s.consumer i).Sends)

/-- Some consumer is not appending, or those that append get through whatever the producers
    past their wait put on the queue first. -/
def Safe (s : State α κ ι ο) : Prop :=
  (∀ i, (s.consumer i).Inside) → Nonempty ι → Fits cap s.queue.length s.sending (∃ i, (s.consumer i).Sends)

variable {cap} in
theorem roomy_of_free {s s' : State α κ ι ο} (i : ι) (h : ¬ (s.consumer i).Inside) (h' : ¬ (s'.consumer i).Inside) :
    Roomy cap s s' where
  enter _ _ hj' hall := absurd (hall i fun hij => h' (hij ▸ hj')) h
  offer _ _ _ _ hall := absurd (hall i) h

end

/-! ## The steps -/

variable [DecidableEq ο]

def State.prod (s : State α κ ι ο) (j : ο) (pc : Producer α) : State α κ ι ο :=
  { s with producer := Function.update s.producer j pc }

theorem sending_prod [Fintype ο] {s : State α κ ι ο} {j : ο} {pc pc' : Producer α} (h : s.producer j = pc) :
    (s.prod j pc').sending + pc.sends = s.sending + pc'.sends := by
  have hupd : (fun j' => (Function.update s.producer j pc' j').sends) =
      Function.update (fun j' => (s.producer j').sends) j pc'.sends := by
    funext j'
    simp only [Function.update_apply]
    split <;> rfl
  have hsum : s.sending = pc.sends + ∑ j' ∈ Finset.univ \ {j}, (s.producer j').sends := by
    rw [← h]
    exact Finset.sum_eq_add_sum_sdiff_singleton_of_mem (Finset.mem_univ j) _
  simp only [State.sending, State.prod, hupd, Finset.sum_update_of_mem (Finset.mem_univ j)] at hsum ⊢
  omega

variable [DecidableEq ι]

def State.at_ (s : State α κ ι ο) (i : ι) (pc : Pc α κ) : State α κ ι ο :=
  { s with consumer := Function.update s.consumer i pc }

variable (P : Program α κ) (cap : Nat)

inductive Step : State α κ ι ο → State α κ ι ο → Prop
  | receive (s : State α κ ι ο) (i : ι) (a : α) (q : List α) : s.consumer i = .receive → s.queue = a :: q →
      Step s { s.at_ i (.run (P.start a)) with queue := q }
  | work (s : State α κ ι ο) (i : ι) (k k' : κ) : s.consumer i = .run k → P.next k (.work k') → Step s (s.at_ i (.run k'))
  | done (s : State α κ ι ο) (i : ι) (k : κ) : s.consumer i = .run k → P.next k .done → Step s (s.at_ i .receive)
  | enter (s : State α κ ι ο) (i : ι) (k : κ) (a : α) (k' : κ) : s.consumer i = .run k → P.next k (.append a k') →
      Step s (s.at_ i (.poll a k'))
  | pass (s : State α κ ι ο) (i : ι) (a : α) (k : κ) : s.consumer i = .poll a k → ¬ crowded cap s.queue.length →
      Step s (s.at_ i (.send a k))
  | push (s : State α κ ι ο) (i : ι) (a : α) (k : κ) : s.consumer i = .send a k → s.queue.length < cap →
      Step s { s.at_ i (.run k) with queue := s.queue ++ [a] }
  | hand (s : State α κ ι ο) (i i' : ι) (a : α) (k : κ) : s.consumer i = .send a k → s.consumer i' = .receive →
      s.queue = [] → Step s ((s.at_ i (.run k)).at_ i' (.run (P.start a)))
  | offer (s : State α κ ι ο) (j : ο) (a : α) : s.producer j = .idle → Step s (s.prod j (.poll a))
  | offerPass (s : State α κ ι ο) (j : ο) (a : α) : s.producer j = .poll a → ¬ crowded cap s.queue.length →
      Step s (s.prod j (.send a))
  | offerPush (s : State α κ ι ο) (j : ο) (a : α) : s.producer j = .send a → s.queue.length < cap →
      Step s { s.prod j .idle with queue := s.queue ++ [a] }
  | offerHand (s : State α κ ι ο) (j : ο) (i : ι) (a : α) : s.producer j = .send a → s.consumer i = .receive →
      s.queue = [] → Step s ((s.prod j .idle).at_ i (.run (P.start a)))

def init : State α κ ι ο := ⟨[], fun _ => .receive, fun _ => .idle⟩

variable {P cap}

theorem enter_of_inside {s s' : State α κ ι ο} (h : Step P cap s s') {i : ι} (hi : ¬ (s.consumer i).Inside)
    (hi' : (s'.consumer i).Inside) :
    ∃ k a k', s.consumer i = .run k ∧ P.next k (.append a k') ∧ s' = s.at_ i (.poll a k') := by
  have hne : ∀ {j pc}, ¬ pc.Inside → ¬ (Function.update s.consumer j pc i).Inside := by
    intro j pc hpc
    rw [Function.update_apply]
    split
    · exact hpc
    · exact hi
  cases h with
  | receive j a q hc hq => exact absurd hi' (hne id)
  | work j k k' hc hn => exact absurd hi' (hne id)
  | done j k hc hn => exact absurd hi' (hne id)
  | enter j k a k' hc hn =>
    by_cases hij : i = j
    · exact ⟨k, a, k', hij ▸ hc, hn, hij ▸ rfl⟩
    · simp only [State.at_, Function.update_apply, if_neg hij] at hi'
      exact absurd hi' hi
  | pass j a k hc hl =>
    have hij : i ≠ j := fun hij => hi (by rw [hij, hc]; trivial)
    simp only [State.at_, Function.update_apply, if_neg hij] at hi'
    exact absurd hi' hi
  | push j a k hc hl => exact absurd hi' (hne id)
  | hand j j' a k hc hc' hq =>
    simp only [State.at_, Function.update_apply] at hi'
    split at hi'
    · exact absurd hi' id
    · split at hi'
      · exact absurd hi' id
      · exact absurd hi' hi
  | offer j a hp => exact absurd hi' hi
  | offerPass j a hp hl => exact absurd hi' hi
  | offerPush j a hp hl => exact absurd hi' hi
  | offerHand j i' a hp hc hq => exact absurd hi' (hne id)

theorem pass_of_send {s s' : State α κ ι ο} (h : Step P cap s s') {j : ο} {a : α} (hj : s.producer j = .poll a)
    (hj' : s'.producer j = .send a) : s' = s.prod j (.send a) := by
  have hne : ∀ {j' pc}, pc ≠ Producer.send a → Function.update s.producer j' pc j ≠ .send a := by
    intro j' pc hpc
    rw [Function.update_apply]
    split
    · exact hpc
    · rw [hj]; simp
  have hsame : s.producer j ≠ .send a := by rw [hj]; simp
  cases h with
  | receive | work | done | enter | pass | push | hand => exact absurd hj' hsame
  | offer j' b hp => exact absurd hj' (hne (by simp))
  | offerPass j' b hp hl =>
    by_cases hjj : j = j'
    · subst hjj
      rw [hj] at hp
      cases hp
      rfl
    · simp only [State.prod, Function.update_apply, if_neg hjj] at hj'
      exact absurd hj' hsame
  | offerPush j' b hp hl => exact absurd hj' (hne (by simp))
  | offerHand j' i b hp hc hq => exact absurd hj' (hne (by simp))

theorem length_le_run {s : State α κ ι ο} (h : Relation.ReflTransGen (Step P cap) init s) : s.queue.length ≤ cap := by
  induction h with
  | refl => exact Nat.zero_le _
  | tail _ hs ih =>
    cases hs with
    | receive i a q hc hq => rw [hq] at ih; exact Nat.le_of_succ_le ih
    | push i a k hc hl => simp only [List.length_append, List.length_cons, List.length_nil]; omega
    | offerPush j a hp hl => simp only [List.length_append, List.length_cons, List.length_nil]; omega
    | work | done | enter | pass | hand | offer | offerPass | offerHand => exact ih

variable [Fintype ο]

theorem safe_step {s s' : State α κ ι ο} (h : Step P cap s s') (hr : Roomy cap s s') (hs : Safe cap s) : Safe cap s' := by
  intro hall' hne
  by_cases hall : ∀ i, (s.consumer i).Inside
  · have hfit := hs hall hne
    cases h with
    | receive i a q hc hq => exact absurd (hall i) (by rw [hc]; exact id)
    | work i k k' hc hn => exact absurd (hall i) (by rw [hc]; exact id)
    | done i k hc hn => exact absurd (hall i) (by rw [hc]; exact id)
    | enter i k a k' hc hn => exact absurd (hall i) (by rw [hc]; exact id)
    | pass i a k hc hl => exact ⟨hfit.1, .inl ⟨i, by simp [State.at_, Pc.Sends]⟩⟩
    | push i a k hc hl => exact absurd (hall' i) (by simp [State.at_, Pc.Inside])
    | hand i i' a k hc hc' hq => exact absurd (hall i') (by rw [hc']; exact id)
    | offer j a hp =>
      have hsend : (s.prod j (.poll a)).sending = s.sending := sending_prod hp
      exact hsend.symm ▸ hfit
    | offerPass j a hp hl =>
      have hsend : (s.prod j (.send a)).sending = s.sending + 1 := sending_prod hp
      exact hsend.symm ▸ hr.offer j a hp (by simp [State.prod]) hall
    | offerPush j a hp hl =>
      -- what was on its way is now on the queue
      have hsend : (s.prod j .idle).sending + 1 = s.sending := sending_prod hp
      have hsum : (s.queue ++ [a]).length + (s.prod j .idle).sending = s.queue.length + s.sending := by
        simp only [List.length_append, List.length_cons, List.length_nil]; omega
      simp only [Fits, ← hsum] at hfit
      exact hfit
    | offerHand j i a hp hc hq => exact absurd (hall i) (by rw [hc]; exact id)
  · -- the consumer that was not appending has just started to
    obtain ⟨i, hi⟩ := not_forall.mp hall
    obtain ⟨k, a, k', hk, hn, hs'⟩ := enter_of_inside h hi (hall' i)
    have hrest : ∀ j, j ≠ i → s'.consumer j = s.consumer j := by
      intro j hj
      simp [hs', State.at_, hj]
    have hfit := hr.enter i hi (hall' i) fun j hj => hrest j hj ▸ hall' j
    have hpast : (∃ j, (s.consumer j).Sends) → ∃ j, (s'.consumer j).Sends := by
      intro hx
      obtain ⟨j, hj⟩ := hx
      have hji : j ≠ i := fun hji => by rw [hji, hk] at hj; exact hj
      exact ⟨j, (hrest j hji).symm ▸ hj⟩
    rw [hs'] at hpast ⊢
    exact ⟨hfit.1, hfit.2.imp_left hpast⟩

theorem safe_run {s : State α κ ι ο} (h : Relation.ReflTransGen (fun s s' => Step P cap s s' ∧ Roomy cap s s') init s) :
    Safe cap s := by
  induction h with
  | refl => exact fun hall hne => absurd (hall hne.some) id
  | tail _ hs ih => exact safe_step hs.1 hs.2 ih

/-- While there is room, the consumers never wedge the queue. -/
theorem never_wedged {s : State α κ ι ο}
    (h : Relation.ReflTransGen (fun s s' => Step P cap s s' ∧ Roomy cap s s') init s) : ¬ Wedged cap s := by
  intro hw
  obtain ⟨hne, hwait⟩ := hw
  obtain ⟨hlt, hpast⟩ := safe_run h (fun i => inside_of_waiting (hwait i)) hne
  rcases hpast with hsend | hroom
  · obtain ⟨i, hi⟩ := hsend
    have hfull := full_of_sends (hwait i) hi
    omega
  · have hcrowd := crowded_of_waiting (hwait hne.some)
    simp only [crowded] at hcrowd hroom
    omega

/-! ## A step without room -/

section
variable (P cap)

/-- Producers past their wait put their items on the queue, whatever the consumers do. -/
theorem push_run : ∀ (n : Nat) (s : State α κ ι ο), n ≤ s.sending → s.queue.length + n ≤ cap →
    ∃ s', Relation.ReflTransGen (Step P cap) s s' ∧ s'.consumer = s.consumer ∧ s'.queue.length = s.queue.length + n
  | 0, s, _, _ => ⟨s, .refl, rfl, rfl⟩
  | n + 1, s, hn, hl => by
    obtain ⟨j, a, hj⟩ := exists_send (by omega : 0 < s.sending)
    have hstep : Step P cap s { s.prod j .idle with queue := s.queue ++ [a] } := .offerPush s j a hj (by omega)
    have hsend : (s.prod j .idle).sending + 1 = s.sending := sending_prod hj
    have hleft : n ≤ (s.prod j .idle).sending := by omega
    obtain ⟨s', hrun, hc, hq⟩ := push_run n { s.prod j .idle with queue := s.queue ++ [a] } hleft
      (by simp only [List.length_append, List.length_cons, List.length_nil]; omega)
    refine ⟨s', .head hstep hrun, hc, ?_⟩
    simp only [List.length_append, List.length_cons, List.length_nil] at hq
    omega

end

/-- Where all consumers append and there is no room, the producers wedge the queue. -/
theorem wedge_of_no_room (hcap : 10 ≤ cap) [Nonempty ι] {s : State α κ ι ο} (hl : s.queue.length ≤ cap)
    (hall : ∀ i, (s.consumer i).Inside) (hfit : ¬ Fits cap s.queue.length s.sending (∃ i, (s.consumer i).Sends)) :
    ∃ s', Relation.ReflTransGen (Step P cap) s s' ∧ Wedged cap s' := by
  by_cases hfull : cap ≤ s.queue.length + s.sending
  · obtain ⟨s', hrun, hc, hq⟩ := push_run P cap (cap - s.queue.length) s (by omega) (by omega)
    refine ⟨s', hrun, inferInstance, fun i => waiting_of_inside (hc ▸ hall i) ?_ fun _ => ?_⟩
    · simp only [crowded]; omega
    · omega
  · obtain ⟨s', hrun, hc, hq⟩ := push_run P cap s.sending s (Nat.le_refl _) (by omega)
    simp only [Fits, not_and_or, not_or, not_not] at hfit
    obtain ⟨hnone, hcrowd⟩ := hfit.resolve_left (by omega)
    exact ⟨s', hrun, inferInstance, fun i => waiting_of_inside (hc ▸ hall i) (hq ▸ hcrowd)
      fun hi => absurd ⟨i, hc ▸ hi⟩ hnone⟩

/-- No weaker condition would do: a step without room can always be followed by a wedge. -/
theorem roomless_step_wedges (hcap : 10 ≤ cap) [Nonempty ι] {s s' : State α κ ι ο}
    (hrun : Relation.ReflTransGen (Step P cap) init s) (h : Step P cap s s') (hr : ¬ Roomy cap s s') :
    ∃ s'', Relation.ReflTransGen (Step P cap) s' s'' ∧ Wedged cap s'' := by
  have hl := length_le_run (hrun.tail h)
  by_cases hi : ∃ i, ¬ (s.consumer i).Inside ∧ (s'.consumer i).Inside
  · obtain ⟨i, hi, hi'⟩ := hi
    obtain ⟨k, a, k', hk, -, hs'⟩ := enter_of_inside h hi hi'
    have hrest : ∀ j, j ≠ i → s'.consumer j = s.consumer j := by
      intro j hj
      simp [hs', State.at_, hj]
    by_contra hno
    refine hr ⟨fun j hj hj' hall => ?_, fun j b _ _ hall => absurd (hall i) hi⟩
    have hji : j = i := by
      by_contra hji
      exact hj (hrest j hji ▸ hj')
    subst hji
    by_contra hfit
    refine hno (wedge_of_no_room hcap hl (fun j' => ?_) fun hfit' => hfit ?_)
    · by_cases hj' : j' = j
      · exact hj' ▸ hi'
      · exact (hrest j' hj').symm ▸ hall j' hj'
    · refine ⟨by simpa [hs', State.at_, State.sending] using hfit'.1, ?_⟩
      rcases hfit'.2 with hpast | hroom
      · obtain ⟨j', hsend⟩ := hpast
        by_cases hne : j' = j
        · rw [hne, hs'] at hsend
          exact absurd hsend (by simp [State.at_, Pc.Sends])
        · exact .inl ⟨j', hrest j' hne ▸ hsend⟩
      · exact .inr (by simpa [hs', State.at_, State.sending] using hroom)
  · by_contra hno
    refine hr ⟨fun i hi' hin => absurd ⟨i, hi', hin⟩ hi, fun j a hj hj' hall => ?_⟩
    have hs' := pass_of_send h hj hj'
    subst hs'
    by_contra hfit
    refine hno (wedge_of_no_room hcap hl hall fun hfit' => hfit ?_)
    have hsend : (s.prod j (.send a)).sending = s.sending + 1 := sending_prod hj
    rw [hsend] at hfit'
    exact hfit'

/-! ## Reaching a wedge -/

section
variable (P cap)

theorem offer_run (s : State α κ ι ο) (i : ι) (hi : ¬ (s.consumer i).Inside) (j : ο) (a : α) (hj : s.producer j = .idle)
    (hc : ¬ crowded cap s.queue.length) (hl : s.queue.length < cap) :
    Relation.ReflTransGen (fun s s' => Step P cap s s' ∧ Roomy cap s s') s { s with queue := s.queue ++ [a] } := by
  have h1 : Step P cap s (s.prod j (.poll a)) := .offer s j a hj
  have h2 : Step P cap (s.prod j (.poll a)) ((s.prod j (.poll a)).prod j (.send a)) :=
    .offerPass _ j a (by simp [State.prod]) hc
  have h3 : Step P cap ((s.prod j (.poll a)).prod j (.send a))
      { ((s.prod j (.poll a)).prod j (.send a)).prod j .idle with queue := s.queue ++ [a] } :=
    .offerPush _ j a (by simp [State.prod]) hl
  have hend : { ((s.prod j (.poll a)).prod j (.send a)).prod j .idle with queue := s.queue ++ [a] } =
      { s with queue := s.queue ++ [a] } := by
    have : Function.update s.producer j .idle = s.producer := by rw [← hj, Function.update_eq_self]
    simp [State.prod, this]
  rw [← hend]
  exact ((Relation.ReflTransGen.single ⟨h1, roomy_of_free i hi hi⟩).tail ⟨h2, roomy_of_free i hi hi⟩).tail
    ⟨h3, roomy_of_free i hi hi⟩

theorem fill_run (hcap : 10 ≤ cap) (s : State α κ ι ο) (i : ι) (hi : ¬ (s.consumer i).Inside) (j : ο) (a : α)
    (hj : s.producer j = .idle) (hq : s.queue = []) :
    ∀ n, n ≤ cap - cap / 10 + 1 → Relation.ReflTransGen (fun s s' => Step P cap s s' ∧ Roomy cap s s') s
      { s with queue := List.replicate n a }
  | 0, _ => by
    have : { s with queue := List.replicate 0 a } = s := by cases s; simp_all
    rw [this]
  | n + 1, hn => by
    have ih := fill_run hcap s i hi j a hj hq n (by omega)
    have hstep := offer_run P cap { s with queue := List.replicate n a } i hi j a hj
      (by simp only [crowded, List.length_replicate]; omega) (by simp only [List.length_replicate]; omega)
    rw [List.replicate_succ']
    exact ih.trans hstep

end

section
variable {n : Nat}

def split (m : Nat) (pc pc' : Pc α κ) : Fin n → Pc α κ := fun i => if i.val < m then pc else pc'

theorem split_succ {m : Nat} (hm : m < n) (pc pc' : Pc α κ) :
    Function.update (split m pc pc') ⟨m, hm⟩ pc = (split (m + 1) pc pc' : Fin n → Pc α κ) := by
  funext i
  simp only [Function.update_apply, split, Fin.ext_iff]
  split_ifs <;> first | rfl | omega

theorem split_all (pc pc' : Pc α κ) : (split n pc pc' : Fin n → Pc α κ) = fun _ => pc := by
  funext i
  simp [split]

theorem split_none (pc pc' : Pc α κ) : (split 0 pc pc' : Fin n → Pc α κ) = fun _ => pc' := by
  funext i
  simp [split]

theorem split_outside {m : Nat} {pc pc' : Pc α κ} (h : ¬ pc.Inside) (h' : ¬ pc'.Inside) (i : Fin n) :
    ¬ (split m pc pc' i).Inside := by
  unfold split
  split
  · exact h
  · exact h'

variable (P) in
theorem take_run (hcap : 10 ≤ cap) (j : ο) (a : α) : ∀ m ≤ n,
    Relation.ReflTransGen (fun s s' => Step P cap s s' ∧ Roomy cap s s') (init : State α κ (Fin n) ο)
      ⟨[], split m (.run (P.start a)) .receive, fun _ => .idle⟩
  | 0, _ => by rw [split_none]; exact .refl
  | m + 1, hm => by
    have ih := take_run hcap j a m (by omega)
    have hout : ∀ m' : Nat, ¬ ((split m' (.run (P.start a)) .receive : Fin n → Pc α κ) ⟨m, hm⟩).Inside :=
      fun m' => split_outside id id _
    have hput := offer_run P cap (⟨[], split m (.run (P.start a)) .receive, fun _ => .idle⟩ : State α κ (Fin n) ο)
      ⟨m, hm⟩ (hout m) j a rfl (by simp only [crowded, List.length_nil]; omega) (by simp only [List.length_nil]; omega)
    have htake : Step P cap (⟨[a], split m (.run (P.start a)) .receive, fun _ => .idle⟩ : State α κ (Fin n) ο)
        ⟨[], split (m + 1) (.run (P.start a)) .receive, fun _ => .idle⟩ := by
      have h : Step P cap (⟨[a], split m (.run (P.start a)) .receive, fun _ => .idle⟩ : State α κ (Fin n) ο) _ :=
        .receive _ (⟨m, hm⟩ : Fin n) a [] (by simp [split]) rfl
      simp only [State.at_, split_succ hm] at h
      exact h
    exact (ih.trans hput).tail ⟨htake, roomy_of_free ⟨m, hm⟩ (hout m) (hout (m + 1))⟩

omit [Fintype ο] in
theorem enter_step {k k' : κ} {b : α} (hk : P.next k (.append b k')) (q : List α) {m : Nat} (hm : m < n) :
    Step P cap (⟨q, split m (.poll b k') (.run k), fun _ => .idle⟩ : State α κ (Fin n) ο)
      ⟨q, split (m + 1) (.poll b k') (.run k), fun _ => .idle⟩ := by
  have h : Step P cap (⟨q, split m (.poll b k') (.run k), fun _ => .idle⟩ : State α κ (Fin n) ο) _ :=
    .enter _ (⟨m, hm⟩ : Fin n) k b k' (by simp [split]) hk
  simp only [State.at_, split_succ hm] at h
  exact h

theorem enter_run {k k' : κ} {b : α} (hk : P.next k (.append b k')) (q : List α) : ∀ m < n,
    Relation.ReflTransGen (fun s s' => Step P cap s s' ∧ Roomy cap s s')
      (⟨q, fun _ => .run k, fun _ => .idle⟩ : State α κ (Fin n) ο) ⟨q, split m (.poll b k') (.run k), fun _ => .idle⟩
  | 0, _ => by rw [split_none]
  | m + 1, hm => by
    have ih := enter_run hk q m (by omega)
    have hlast : ∀ m' ≤ m + 1, ¬ ((split m' (.poll b k') (.run k) : Fin n → Pc α κ) ⟨m + 1, hm⟩).Inside := by
      intro m' hm'
      simp only [split, if_neg (Nat.not_lt.mpr hm')]
      exact id
    exact ih.tail ⟨enter_step hk q (by omega), roomy_of_free ⟨m + 1, hm⟩ (hlast m (by omega)) (hlast _ (Nat.le_refl _))⟩

/-- Every consumer at its first append but the last one, with `q` on the queue. -/
theorem all_but_one_run (hcap : 10 ≤ cap) (j : ο) {a b : α} {k' : κ} (hk : P.next (P.start a) (.append b k')) {m : Nat}
    (hm : m ≤ cap - cap / 10 + 1) :
    Relation.ReflTransGen (fun s s' => Step P cap s s' ∧ Roomy cap s s') (init : State α κ (Fin (n + 1)) ο)
      ⟨List.replicate m a, split n (.poll b k') (.run (P.start a)), fun _ => .idle⟩ := by
  have htake := take_run P hcap j a (n + 1) (Nat.le_refl (n + 1))
  rw [split_all] at htake
  have hfill := fill_run P cap hcap (⟨[], fun _ => .run (P.start a), fun _ => .idle⟩ : State α κ (Fin (n + 1)) ο)
    0 id j a rfl rfl m hm
  exact (htake.trans hfill).trans (enter_run hk _ n (Nat.lt_succ_self n))

/-- Where the program appends as soon as it gets an item, any number of consumers and one
    producer reach a wedge. -/
theorem wedge_reachable (hcap : 10 ≤ cap) (j : ο) {a b : α} {k' : κ} (hk : P.next (P.start a) (.append b k')) :
    ∃ s : State α κ (Fin (n + 1)) ο, Relation.ReflTransGen (Step P cap) init s ∧ Wedged cap s := by
  have hrun := all_but_one_run (n := n) hcap j hk (Nat.le_refl (cap - cap / 10 + 1))
  refine ⟨_, (hrun.lift id fun _ _ h => h.1).tail (enter_step hk _ (Nat.lt_succ_self n)), ⟨0⟩, fun i => ?_⟩
  refine waiting_of_inside (by simp [split_all, Pc.Inside]) ?_ (by simp [split_all, Pc.Sends])
  simp only [crowded, List.length_replicate]
  omega

theorem all_append (hcap : 10 ≤ cap) (j : ο) {a b : α} {k' : κ} (hk : P.next (P.start a) (.append b k')) :
    ∃ s : State α κ (Fin (n + 1)) ο, Relation.ReflTransGen (fun s s' => Step P cap s s' ∧ Roomy cap s s') init s ∧
      ∀ i, (s.consumer i).Inside := by
  have hrun := all_but_one_run (n := n) hcap j hk (Nat.zero_le (cap - cap / 10 + 1))
  refine ⟨_, hrun.tail ⟨enter_step hk _ (Nat.lt_succ_self n), ⟨fun i _ _ _ => ?_, fun j a hj => ?_⟩⟩, fun i => ?_⟩
  · simp only [Fits, crowded, List.replicate_zero, List.length_nil, State.sending, Producer.sends, Finset.sum_const_zero]
    omega
  · cases hj
  · simp [split_all, Pc.Inside]

end

end GoFastdfs.Backpressure
