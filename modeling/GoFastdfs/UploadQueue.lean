/-
  GoFastdfs.UploadQueue — uploads on the way to a worker (`Upload`, `ConsumerUpload`).

  The handler of a POST copies the body to a file below `_tmp`, puts the request with a
  reply channel on `queueUpload` and waits for the reply; then it removes its file. A
  worker takes a request, runs `upload` on it, which may panic, and replies in either case.
  A GET is run by its own handler, a refused one answers at once. A copy that fails answers
  with the error and leaves its file.

  What `upload` does is `Upload`; here it begins and ends. Where small files are merged it may
  not end: `SaveSmallFile` can wait for its lock for good (`PackLock`). Requests and workers
  are any types, the queue any size. Proved, in every interleaving:
  - `uploads_run_once`: requests are begun in the order they were queued, each at most once;
    while one runs its handler waits and its file is there, and when its handler returns it
    has been run, nobody runs it any more and the file is gone.
  - `uploads_come_back`: whatever the panics, a request that was copied can still be run and
    answered as long as one worker and the request itself are not stranded in that lock,
    however full the queue is.
-/

import Mathlib.Data.List.Nodup
import Mathlib.Logic.Function.Basic
import Mathlib.Logic.Relation
import Mathlib.Tactic.Common

namespace GoFastdfs

variable {ι ω : Type} [DecidableEq ι] [DecidableEq ω]

inductive Reply where
  /-- Not let in, answered by its own upload, or without a temporary file. -/
  | early
  /-- The copy failed, or its file could not be opened again. -/
  | broken
  | served
  deriving DecidableEq

inductive Progress where
  | asked
  | copying
  | saved
  | waiting
  | returned (r : Reply)
  deriving DecidableEq

inductive Worker (ι : Type) where
  | receive
  | upload (i : ι)
  /-- In `LockKey` for good. -/
  | stranded (i : ι)
  /-- The upload returned, or panicked. -/
  | reply (i : ι)

def Worker.job : Worker ι → Option ι
  | .receive => none
  | .upload i => some i
  | .stranded i => some i
  | .reply i => some i

structure Uploads (ι ω : Type) where
  handler : ι → Progress
  /-- `queueUpload`. -/
  queue : List ι
  worker : ω → Worker ι
  /-- What is in the request's reply channel. -/
  done : ι → Bool
  /-- The request's temporary file is on the disk. -/
  tmp : ι → Bool
  sent : List ι
  started : List ι

namespace Uploads

def init : Uploads ι ω := ⟨fun _ => .asked, [], fun _ => .receive, fun _ => false, fun _ => false, [], []⟩

/-- The steps of the handlers and the workers; the queue holds `cap` requests, and with `merges`
    small files are merged. -/
inductive Step (merges : Bool) (cap : Nat) : Uploads ι ω → Uploads ι ω → Prop
  | early (s : Uploads ι ω) (i : ι) : s.handler i = .asked →
      Step merges cap s { s with handler := Function.update s.handler i (.returned .early) }
  | create (s : Uploads ι ω) (i : ι) : s.handler i = .asked →
      Step merges cap s { s with handler := Function.update s.handler i .copying, tmp := Function.update s.tmp i true }
  | broken (s : Uploads ι ω) (i : ι) : s.handler i = .copying →
      Step merges cap s { s with handler := Function.update s.handler i (.returned .broken) }
  | save (s : Uploads ι ω) (i : ι) : s.handler i = .copying →
      Step merges cap s { s with handler := Function.update s.handler i .saved }
  | send (s : Uploads ι ω) (i : ι) : s.handler i = .saved → s.queue.length < cap →
      Step merges cap s { s with
        handler := Function.update s.handler i .waiting, queue := s.queue ++ [i], sent := s.sent ++ [i] }
  | take (s : Uploads ι ω) (w : ω) (i : ι) (q : List ι) : s.worker w = .receive → s.queue = i :: q →
      Step merges cap s { s with worker := Function.update s.worker w (.upload i), queue := q, started := s.started ++ [i] }
  | strand (s : Uploads ι ω) (w : ω) (i : ι) : merges = true → s.worker w = .upload i →
      Step merges cap s { s with worker := Function.update s.worker w (.stranded i) }
  | finish (s : Uploads ι ω) (w : ω) (i : ι) : s.worker w = .upload i →
      Step merges cap s { s with worker := Function.update s.worker w (.reply i) }
  | reply (s : Uploads ι ω) (w : ω) (i : ι) : s.worker w = .reply i →
      Step merges cap s { s with worker := Function.update s.worker w .receive, done := Function.update s.done i true }
  | back (s : Uploads ι ω) (i : ι) : s.handler i = .waiting → s.done i = true →
      Step merges cap s { s with
        handler := Function.update s.handler i (.returned .served)
        done := Function.update s.done i false
        tmp := Function.update s.tmp i false }

abbrev Run (merges : Bool) (cap : Nat) : Uploads ι ω → Uploads ι ω → Prop := Relation.ReflTransGen (Step merges cap)

/-! ## Where each request is -/

/-- A request that was sent and not answered is in one place: on the queue, with one worker, or
    replied to. -/
structure Sound (cap : Nat) (s : Uploads ι ω) : Prop where
  order : s.sent = s.started ++ s.queue
  nodup : s.sent.Nodup
  fits : s.queue.length ≤ cap
  sent : ∀ i, i ∈ s.sent ↔ s.handler i = .waiting ∨ s.handler i = .returned .served
  queued : ∀ i ∈ s.queue, s.handler i = .waiting
  busy : ∀ w i, (s.worker w).job = some i → s.handler i = .waiting ∧ s.done i = false ∧ i ∈ s.started
  alone : ∀ w v i, (s.worker w).job = some i → (s.worker v).job = some i → w = v
  replied : ∀ i, s.done i = true → s.handler i = .waiting ∧ i ∈ s.started
  begun : ∀ i ∈ s.started, s.handler i = .waiting → s.done i = true ∨ ∃ w, (s.worker w).job = some i
  tmp : ∀ i, s.tmp i = true ↔
    s.handler i = .copying ∨ s.handler i = .saved ∨ s.handler i = .waiting ∨ s.handler i = .returned .broken

omit [DecidableEq ι] [DecidableEq ω] in
theorem sound_init (cap : Nat) : Sound cap (init : Uploads ι ω) := by
  refine ⟨rfl, List.nodup_nil, Nat.zero_le _, fun i => ?_, fun i hi => ?_, fun w i h => ?_, fun w v i h => ?_, fun i h => ?_,
    fun i hi => ?_, fun i => ?_⟩
  · simp [init]
  · exact absurd hi List.not_mem_nil
  · cases h
  · cases h
  · cases h
  · exact absurd hi List.not_mem_nil
  · simp [init]

variable {merges : Bool} {cap : Nat}

omit [DecidableEq ω] in
theorem Sound.move {s : Uploads ι ω} (h : Sound cap s) {i : ι} {x : Progress} {t : Bool}
    (hfrom : s.handler i ≠ .waiting ∧ s.handler i ≠ .returned .served) (hto : x ≠ .waiting ∧ x ≠ .returned .served)
    (htmp : t = true ↔ x = .copying ∨ x = .saved ∨ x = .waiting ∨ x = .returned .broken) :
    Sound cap { s with handler := Function.update s.handler i x, tmp := Function.update s.tmp i t } := by
  have hother : ∀ j, s.handler j = .waiting → Function.update s.handler i x j = .waiting := by
    intro j hj
    have hne : j ≠ i := fun e => hfrom.1 (e ▸ hj)
    rw [Function.update_of_ne hne]
    exact hj
  refine ⟨h.order, h.nodup, h.fits, fun j => ?_, fun j hj => hother j (h.queued j hj), fun w j hj => ?_, h.alone,
    fun j hj => ⟨hother j (h.replied j hj).1, (h.replied j hj).2⟩, fun j hj hw => ?_, fun j => ?_⟩
  · rw [h.sent j]
    by_cases hj : j = i
    · subst hj
      simp [hfrom, hto]
    · simp [hj]
  · exact ⟨hother j (h.busy w j hj).1, (h.busy w j hj).2⟩
  · by_cases hji : j = i
    · subst hji
      simp only [Function.update_self] at hw
      exact absurd hw hto.1
    · simp only [Function.update_of_ne hji] at hw
      exact h.begun j hj hw
  · by_cases hj : j = i
    · subst hj
      simpa using htmp
    · simpa [hj] using h.tmp j

omit [DecidableEq ι] [DecidableEq ω] in
theorem Sound.notMem_queue {s : Uploads ι ω} (h : Sound cap s) {i : ι} (hi : i ∈ s.started) : i ∉ s.queue := by
  intro hq
  have hnodup := h.nodup
  rw [h.order] at hnodup
  exact (List.nodup_append.mp hnodup).2.2 i hi i hq rfl

omit [DecidableEq ι] in
theorem job_update {worker : ω → Worker ι} {w v : ω} {x : Worker ι} {j : ι}
    (h : (Function.update worker w x v).job = some j) : v = w ∧ x.job = some j ∨ v ≠ w ∧ (worker v).job = some j := by
  by_cases hv : v = w
  · subst hv
    rw [Function.update_self] at h
    exact Or.inl ⟨rfl, h⟩
  · rw [Function.update_of_ne hv] at h
    exact Or.inr ⟨hv, h⟩

omit [DecidableEq ω] in
theorem Sound.send {s : Uploads ι ω} (h : Sound cap s) {i : ι} (hi : s.handler i = .saved) (hroom : s.queue.length < cap) :
    Sound cap { s with handler := Function.update s.handler i .waiting, queue := s.queue ++ [i], sent := s.sent ++ [i] } := by
  have hnew : i ∉ s.sent := by simp [h.sent, hi]
  have hother : ∀ j, s.handler j = .waiting → Function.update s.handler i .waiting j = .waiting := by
    intro j hj
    by_cases hji : j = i <;> simp [hji, hj]
  refine ⟨?_, ?_, ?_, fun j => ?_, fun j hj => ?_, fun w j hj => ?_, h.alone,
    fun j hj => ⟨hother j (h.replied j hj).1, (h.replied j hj).2⟩, fun j hj hw => ?_, fun j => ?_⟩
  · simp [h.order]
  · refine List.nodup_append.mpr ⟨h.nodup, List.nodup_singleton i, fun j hj k hk e => ?_⟩
    exact hnew (List.mem_singleton.mp hk ▸ e ▸ hj)
  · simp only [List.length_append, List.length_singleton]
    omega
  · by_cases hji : j = i
    · simp [hji]
    · simp [hji, h.sent]
  · rcases List.mem_append.mp hj with hj | hj
    · exact hother j (h.queued j hj)
    · simp [List.mem_singleton.mp hj]
  · exact ⟨hother j (h.busy w j hj).1, (h.busy w j hj).2⟩
  · have hji : j ≠ i := by
      intro heq
      subst heq
      exact hnew (h.order ▸ List.mem_append_left _ hj)
    simp only [Function.update_of_ne hji] at hw
    exact h.begun j hj hw
  · by_cases hji : j = i
    · subst hji
      simpa [hi] using h.tmp j
    · simpa [hji] using h.tmp j

omit [DecidableEq ι] in
theorem Sound.take {s : Uploads ι ω} (h : Sound cap s) {w : ω} {i : ι} {q : List ι} (hw : s.worker w = .receive)
    (hq : s.queue = i :: q) :
    Sound cap { s with worker := Function.update s.worker w (.upload i), queue := q, started := s.started ++ [i] } := by
  have hhead : i ∈ s.queue := hq ▸ List.mem_cons_self
  have hnew : i ∉ s.started := fun hi => h.notMem_queue hi hhead
  refine ⟨?_, h.nodup, ?_, h.sent, fun j hj => h.queued j (hq ▸ List.mem_cons_of_mem i hj), fun v j hj => ?_,
    fun v u j hv hu => ?_, fun j hj => ⟨(h.replied j hj).1, List.mem_append_left _ (h.replied j hj).2⟩,
    fun j hj hwait => ?_, h.tmp⟩
  · rw [h.order, hq, List.append_assoc]
    rfl
  · have hfits := h.fits
    rw [hq, List.length_cons] at hfits
    show q.length ≤ cap
    omega
  · rcases job_update hj with ⟨-, hj⟩ | ⟨-, hj⟩
    · obtain rfl : i = j := Option.some.inj hj
      refine ⟨h.queued i hhead, ?_, by simp⟩
      by_contra hdone
      exact hnew (h.replied i (Bool.not_eq_false _ ▸ hdone)).2
    · obtain ⟨h1, h2, h3⟩ := h.busy v j hj
      exact ⟨h1, h2, List.mem_append_left _ h3⟩
  -- a worker that has the request already would have begun it
  · rcases job_update hv with ⟨rfl, hvi⟩ | ⟨-, hv'⟩ <;> rcases job_update hu with ⟨rfl, hui⟩ | ⟨-, hu'⟩
    · rfl
    · obtain rfl : i = j := Option.some.inj hvi
      exact absurd (h.busy u i hu').2.2 hnew
    · obtain rfl : i = j := Option.some.inj hui
      exact absurd (h.busy v i hv').2.2 hnew
    · exact h.alone v u j hv' hu'
  · rcases List.mem_append.mp hj with hj | hj
    · rcases h.begun j hj hwait with hdone | ⟨v, hv⟩
      · exact Or.inl hdone
      · have hne : v ≠ w := by
          intro heq
          subst heq
          rw [hw] at hv
          cases hv
        exact Or.inr ⟨v, by simpa [hne] using hv⟩
    · exact Or.inr ⟨w, by simp [Worker.job, List.mem_singleton.mp hj]⟩

omit [DecidableEq ι] in
theorem Sound.keep {s : Uploads ι ω} (h : Sound cap s) {w : ω} {x : Worker ι} (hx : x.job = (s.worker w).job) :
    Sound cap { s with worker := Function.update s.worker w x } := by
  have hjob : ∀ v, (Function.update s.worker w x v).job = (s.worker v).job := by
    intro v
    by_cases hv : v = w
    · subst hv
      simp [hx]
    · simp [hv]
  refine ⟨h.order, h.nodup, h.fits, h.sent, h.queued, fun v j hj => h.busy v j (hjob v ▸ hj),
    fun v u j hv hu => h.alone v u j (hjob v ▸ hv) (hjob u ▸ hu), h.replied, fun j hj hwait => ?_, h.tmp⟩
  rcases h.begun j hj hwait with hdone | ⟨v, hv⟩
  · exact Or.inl hdone
  · exact Or.inr ⟨v, (hjob v).trans hv⟩

theorem Sound.reply {s : Uploads ι ω} (h : Sound cap s) {w : ω} {i : ι} (hw : s.worker w = .reply i) :
    Sound cap { s with worker := Function.update s.worker w .receive, done := Function.update s.done i true } := by
  have hmine : (s.worker w).job = some i := by
    rw [hw]
    rfl
  have hjob : ∀ v j, (Function.update s.worker w .receive v).job = some j → v ≠ w ∧ (s.worker v).job = some j :=
    fun v j hj => (job_update hj).resolve_left fun hv => by cases hv.2
  refine ⟨h.order, h.nodup, h.fits, h.sent, h.queued, fun v j hj => ?_,
    fun v u j hv hu => h.alone v u j (hjob v j hv).2 (hjob u j hu).2, fun j hj => ?_, fun j hj hwait => ?_, h.tmp⟩
  · obtain ⟨hv, hj'⟩ := hjob v j hj
    have hji : j ≠ i := by
      intro heq
      subst heq
      exact hv (h.alone v w j hj' hmine)
    obtain ⟨h1, h2, h3⟩ := h.busy v j hj'
    exact ⟨h1, by simpa [hji] using h2, h3⟩
  · by_cases hji : j = i
    · subst hji
      exact ⟨(h.busy w j hmine).1, (h.busy w j hmine).2.2⟩
    · exact h.replied j (by simpa [hji] using hj)
  · by_cases hji : j = i
    · exact Or.inl (by simp [hji])
    · rcases h.begun j hj hwait with hdone | ⟨v, hv⟩
      · exact Or.inl (by simpa [hji] using hdone)
      · have hne : v ≠ w := by
          intro heq
          subst heq
          exact hji (Option.some.inj (hv.symm.trans hmine))
        exact Or.inr ⟨v, by simpa [hne] using hv⟩

omit [DecidableEq ω] in
theorem Sound.back {s : Uploads ι ω} (h : Sound cap s) {i : ι} (hi : s.handler i = .waiting) (hdone : s.done i = true) :
    Sound cap { s with handler := Function.update s.handler i (.returned .served)
                       done := Function.update s.done i false
                       tmp := Function.update s.tmp i false } := by
  have hqueue : i ∉ s.queue := h.notMem_queue (h.replied i hdone).2
  refine ⟨h.order, h.nodup, h.fits, fun j => ?_, fun j hj => ?_, fun w j hj => ?_, h.alone, fun j hj => ?_,
    fun j hj hwait => ?_, fun j => ?_⟩
  · by_cases hji : j = i
    · subst hji
      simp [h.sent, hi]
    · simp [hji, h.sent]
  · have hji : j ≠ i := fun e => hqueue (e ▸ hj)
    simpa [hji] using h.queued j hj
  · obtain ⟨h1, h2, h3⟩ := h.busy w j hj
    have hji : j ≠ i := by
      intro heq
      subst heq
      rw [hdone] at h2
      cases h2
    exact ⟨by simpa [hji] using h1, by simpa [hji] using h2, h3⟩
  · have hji : j ≠ i := by
      intro heq
      subst heq
      simp at hj
    simpa [hji] using h.replied j (by simpa [hji] using hj)
  · have hji : j ≠ i := by
      intro heq
      subst heq
      simp at hwait
    simpa [hji] using h.begun j hj (by simpa [hji] using hwait)
  · by_cases hji : j = i
    · subst hji
      simp
    · simpa [hji] using h.tmp j

theorem sound_step {s s' : Uploads ι ω} (hs : Step merges cap s s') (h : Sound cap s) : Sound cap s' := by
  cases hs with
  | early i hi =>
    have hmove := h.move (i := i) (x := .returned .early) (t := false) (by simp [hi]) (by simp) (by simp)
    have hfile : s.tmp i = false := by simpa [hi] using h.tmp i
    rwa [← hfile, Function.update_eq_self] at hmove
  | create i hi => exact h.move (by simp [hi]) (by simp) (by simp)
  | broken i hi =>
    have hmove := h.move (i := i) (x := .returned .broken) (t := true) (by simp [hi]) (by simp) (by simp)
    have hfile : s.tmp i = true := (h.tmp i).mpr (Or.inl hi)
    rwa [← hfile, Function.update_eq_self] at hmove
  | save i hi =>
    have hmove := h.move (i := i) (x := .saved) (t := true) (by simp [hi]) (by simp) (by simp)
    have hfile : s.tmp i = true := (h.tmp i).mpr (Or.inl hi)
    rwa [← hfile, Function.update_eq_self] at hmove
  | send i hi hroom => exact h.send hi hroom
  | take w i q hw hq => exact h.take hw hq
  | strand w i _ hw => exact h.keep (by rw [hw]; rfl)
  | finish w i hw => exact h.keep (by rw [hw]; rfl)
  | reply w i hw => exact h.reply hw
  | back i hi hdone => exact h.back hi hdone

theorem sound_run {s : Uploads ι ω} (h : Run merges cap init s) : Sound cap s := by
  induction h with
  | refl => exact sound_init cap
  | tail _ hs ih => exact sound_step hs ih

/-- Queued requests are begun in order and once each. A running upload has its handler waiting
    and its file there; a handler that was served has had its upload run, it runs no more and
    its file is gone. -/
theorem uploads_run_once {s : Uploads ι ω} (h : Run merges cap init s) :
    s.started.Nodup ∧ s.sent = s.started ++ s.queue ∧
      (∀ w v i, (s.worker w).job = some i → (s.worker v).job = some i → w = v) ∧
      (∀ w i, s.worker w = .upload i → s.handler i = .waiting ∧ s.tmp i = true) ∧
      ∀ i, s.handler i = .returned .served → i ∈ s.started ∧ (∀ w, (s.worker w).job ≠ some i) ∧ s.tmp i = false := by
  have hs := sound_run h
  have hnodup := hs.nodup
  rw [hs.order] at hnodup
  refine ⟨(List.nodup_append.mp hnodup).1, hs.order, hs.alone, fun w i hw => ?_, fun i hi => ⟨?_, fun w hw => ?_, ?_⟩⟩
  · have hwait := (hs.busy w i (by rw [hw]; rfl)).1
    exact ⟨hwait, (hs.tmp i).mpr (Or.inr (Or.inr (Or.inl hwait)))⟩
  · have hsent : i ∈ s.sent := (hs.sent i).mpr (Or.inr hi)
    rw [hs.order] at hsent
    refine (List.mem_append.mp hsent).resolve_right fun hq => ?_
    have := hs.queued i hq
    rw [hi] at this
    cases this
  · have := (hs.busy w i hw).1
    rw [hi] at this
    cases this
  · have := hs.tmp i
    simpa [hi] using this

/-! ## Every request can be answered -/

omit [DecidableEq ι] in
/-- A stranded upload is one that small files are merged in. -/
theorem nobody_stranded {s : Uploads ι ω} (h : ∀ w i, s.worker w ≠ .stranded i) {w : ω} {x : Worker ι}
    (hx : ∀ i, x ≠ .stranded i) (v : ω) (i : ι) : Function.update s.worker w x v ≠ .stranded i := by
  by_cases hv : v = w
  · rw [hv, Function.update_self]
    exact hx i
  · rw [Function.update_of_ne hv]
    exact h v i

theorem nobody_stranded_run (hm : merges = false) {s : Uploads ι ω} (h : Run merges cap init s) :
    ∀ w i, s.worker w ≠ .stranded i := by
  induction h with
  | refl => exact fun w i h => by cases h
  | tail _ hs ih =>
    cases hs with
    | early | create | broken | save | send | back => exact ih
    | take w i q hw hq => exact nobody_stranded ih (fun _ h => by cases h)
    | strand w i hm' hw => rw [hm] at hm'; cases hm'
    | finish w i hw => exact nobody_stranded ih (fun _ h => by cases h)
    | reply w i hw => exact nobody_stranded ih (fun _ h => by cases h)

/-- A worker that is not stranded gets back to the queue, by itself. -/
theorem free_run (s : Uploads ι ω) {w : ω} (hw : ∀ i, s.worker w ≠ .stranded i) :
    ∃ s', Run merges cap s s' ∧ s'.worker w = .receive ∧ s'.queue = s.queue ∧ s'.handler = s.handler ∧
      ∀ v, v ≠ w → s'.worker v = s.worker v := by
  have hreply : ∀ (t : Uploads ι ω) (i : ι), t.worker w = .reply i →
      ∃ s', Run merges cap t s' ∧ s'.worker w = .receive ∧ s'.queue = t.queue ∧ s'.handler = t.handler ∧
        ∀ v, v ≠ w → s'.worker v = t.worker v :=
    fun t i ht => ⟨_, .single (.reply t w i ht), Function.update_self _ _ _, rfl, rfl,
      fun v hv => Function.update_of_ne hv _ _⟩
  cases hwi : s.worker w with
  | receive => exact ⟨s, .refl, hwi, rfl, rfl, fun _ _ => rfl⟩
  | upload i =>
    have hfinish : Step merges cap s { s with worker := Function.update s.worker w (.reply i) } := .finish s w i hwi
    obtain ⟨s', hrun, hrec, hq, hh, hrest⟩ :=
      hreply { s with worker := Function.update s.worker w (.reply i) } i (Function.update_self _ _ _)
    exact ⟨s', .head hfinish hrun, hrec, hq, hh, fun v hv => (hrest v hv).trans (Function.update_of_ne hv _ _)⟩
  | stranded i => exact absurd hwi (hw i)
  | reply i => exact hreply s i hwi

/-- A request that a worker has is answered, unless it is stranded. -/
theorem job_run {s : Uploads ι ω} {w : ω} {i : ι} (hw : (s.worker w).job = some i) (hfree : s.worker w ≠ .stranded i)
    (hi : s.handler i = .waiting) : ∃ s', Run merges cap s s' ∧ s'.handler i = .returned .served := by
  have hreply : ∀ t : Uploads ι ω, t.worker w = .reply i → t.handler i = .waiting →
      ∃ s', Run merges cap t s' ∧ s'.handler i = .returned .served := by
    intro t ht hti
    have hdone : Step merges cap t
        { t with worker := Function.update t.worker w .receive, done := Function.update t.done i true } := .reply t w i ht
    have hboth := (Relation.ReflTransGen.single hdone).tail (.back _ i hti (Function.update_self _ _ _))
    exact ⟨_, hboth, Function.update_self _ _ _⟩
  cases hwi : s.worker w with
  | receive =>
    rw [hwi] at hw
    cases hw
  | upload j =>
    obtain rfl : j = i := by
      rw [hwi] at hw
      exact Option.some.inj hw
    have hfinish : Step merges cap s { s with worker := Function.update s.worker w (.reply j) } := .finish s w j hwi
    obtain ⟨s', hrun, hs'⟩ := hreply { s with worker := Function.update s.worker w (.reply j) } (Function.update_self _ _ _) hi
    exact ⟨s', .head hfinish hrun, hs'⟩
  | stranded j =>
    rw [hwi] at hw
    cases hw
    exact absurd hwi hfree
  | reply j =>
    obtain rfl : j = i := by
      rw [hwi] at hw
      exact Option.some.inj hw
    exact hreply s hwi hi

/-- One worker alone works its way through the queue to any request on it. -/
theorem reach_run {w : ω} {i : ι} {after : List ι} : ∀ (before : List ι) {s : Uploads ι ω}, (∀ j, s.worker w ≠ .stranded j) →
    s.queue = before ++ i :: after → ∃ s', Run merges cap s s' ∧ s'.worker w = .upload i ∧ s'.handler = s.handler
  | [], s, hfree, hq => by
    obtain ⟨t, hrun, hw, hqueue, hhandler, -⟩ := @free_run _ _ _ _ merges cap s w hfree
    refine ⟨_, hrun.tail (.take t w i after hw (hqueue.trans hq)), ?_, hhandler⟩
    show Function.update t.worker w (.upload i) w = _
    rw [Function.update_self]
  | a :: before, s, hfree, hq => by
    obtain ⟨t, hrun, hw, hqueue, hhandler, -⟩ := @free_run _ _ _ _ merges cap s w hfree
    have htake : Step merges cap t { t with worker := Function.update t.worker w (.upload a), queue := before ++ i :: after
                                            started := t.started ++ [a] } := .take t w a _ hw (hqueue.trans hq)
    obtain ⟨s', hrun', hup, hhandler'⟩ := reach_run before (s := { t with
      worker := Function.update t.worker w (.upload a), queue := before ++ i :: after, started := t.started ++ [a] })
      (fun j => by
        show Function.update t.worker w (.upload a) w ≠ _
        rw [Function.update_self]
        exact fun h => by cases h) rfl
    exact ⟨s', (hrun.tail htake).trans hrun', hup, hhandler'.trans hhandler⟩

theorem Sound.waiting_run {s : Uploads ι ω} (h : Sound cap s) {w : ω} (hw : ∀ j, s.worker w ≠ .stranded j) {i : ι}
    (hfree : ∀ v, s.worker v ≠ .stranded i) (hi : s.handler i = .waiting) :
    ∃ s', Run merges cap s s' ∧ s'.handler i = .returned .served := by
  have hsent := (h.sent i).mpr (Or.inl hi)
  rw [h.order] at hsent
  rcases List.mem_append.mp hsent with hstarted | hqueue
  · rcases h.begun i hstarted hi with hdone | ⟨v, hv⟩
    · exact ⟨_, .single (.back s i hi hdone), Function.update_self _ _ _⟩
    · exact job_run hv (hfree v) hi
  · obtain ⟨before, after, hq⟩ := List.append_of_mem hqueue
    obtain ⟨t, hrun, hup, hhandler⟩ := @reach_run _ _ _ _ merges cap w _ _ before _ hw hq
    obtain ⟨s', hrun', hs'⟩ := @job_run _ _ _ _ merges cap t w i (by rw [hup]; rfl) (by rw [hup]; simp) (hhandler ▸ hi)
    exact ⟨s', hrun.trans hrun', hs'⟩

/-- In every reachable state a request whose body was copied can still be run and answered, as
    long as there is a worker and, where small files are merged, neither is stranded: no
    panic, no other request and no full queue is in its way for good. -/
theorem uploads_come_back (hcap : 0 < cap) {s : Uploads ι ω} (h : Run merges cap init s) (w : ω) {i : ι}
    (hw : merges = true → ∀ j, s.worker w ≠ .stranded j) (hfree : merges = true → ∀ v, s.worker v ≠ .stranded i)
    (hi : s.handler i = .saved ∨ s.handler i = .waiting) : ∃ s', Run merges cap s s' ∧ s'.handler i = .returned .served := by
  have hs := sound_run h
  replace hw : ∀ j, s.worker w ≠ .stranded j := by
    cases hm : merges with
    | false => exact nobody_stranded_run hm h w
    | true => exact hw hm
  replace hfree : ∀ v, s.worker v ≠ .stranded i := by
    cases hm : merges with
    | false => exact fun v => nobody_stranded_run hm h v i
    | true => exact hfree hm
  rcases hi with hi | hi
  · -- a worker makes room first
    have hroom : ∃ t, Run merges cap s t ∧ t.handler i = .saved ∧ t.queue.length < cap ∧ (∀ j, t.worker w ≠ .stranded j) ∧
        ∀ v, t.worker v ≠ .stranded i := by
      by_cases hfull : s.queue.length < cap
      · exact ⟨s, .refl, hi, hfull, hw, hfree⟩
      · cases hq : s.queue with
        | nil =>
          rw [hq] at hfull
          exact absurd hcap hfull
        | cons a q =>
          obtain ⟨t, hrun, hrec, hqueue, hhandler, hrest⟩ := @free_run _ _ _ _ merges cap s w hw
          have hnone : ∀ v j, v = w ∨ s.worker v ≠ .stranded j →
              Function.update t.worker w (.upload a) v ≠ .stranded j := by
            intro v j hv
            by_cases hvw : v = w
            · rw [hvw, Function.update_self]; simp
            · rw [Function.update_of_ne hvw, hrest v hvw]
              exact hv.resolve_left hvw
          refine ⟨_, hrun.tail (.take t w a q hrec (hqueue.trans hq)), by rw [hhandler]; exact hi, ?_,
            fun j => hnone w j (Or.inl rfl), fun v => hnone v i (Or.inr (hfree v))⟩
          have hfits := hs.fits
          rw [hq, List.length_cons] at hfits
          exact hfits
    obtain ⟨t, hrun, hti, hlen, htw, htfree⟩ := hroom
    have hsend : Step merges cap t { t with handler := Function.update t.handler i .waiting, queue := t.queue ++ [i]
                                            sent := t.sent ++ [i] } := .send t i hti hlen
    have hrun' := hrun.tail hsend
    obtain ⟨s', hback, hs'⟩ := (sound_run (h.trans hrun')).waiting_run htw htfree (Function.update_self _ _ _)
    exact ⟨s', hrun'.trans hback, hs'⟩
  · exact hs.waiting_run hw hfree hi

/-! ## Fixed inputs -/

def uploadQueueSize : Nat := 100

/-- Two requests, the second queued first and each with a worker of its own. -/
theorem two_begun : ∃ s : Uploads Nat (Fin 2), Run true uploadQueueSize init s ∧ s.started = [1, 0] ∧ s.queue = [] ∧
    s.worker 0 = .upload 1 ∧ s.worker 1 = .upload 0 ∧ s.handler 1 = .waiting ∧ s.done 1 = false := by
  have h1 : Run true uploadQueueSize (init : Uploads Nat (Fin 2)) _ := .single (.create init 0 rfl)
  have h2 := (h1.tail (.create _ 1 rfl)).tail (.save _ 1 rfl)
  have h3 := (h2.tail (.send _ 1 rfl (by decide))).tail (.save _ 0 rfl)
  have h4 := (h3.tail (.send _ 0 rfl (by decide))).tail (.take _ 0 1 [0] rfl rfl)
  exact ⟨_, h4.tail (.take _ 1 0 [] rfl rfl), rfl, rfl, rfl, rfl, rfl, rfl⟩

/-- One of them is answered while the other still runs. -/
theorem two_uploads_run_once : ∃ s : Uploads Nat (Fin 2), Run true uploadQueueSize init s ∧ s.started = [1, 0] ∧
    s.started.Nodup ∧ s.sent = s.started ++ s.queue ∧ s.worker 1 = .upload 0 ∧ (s.handler 0 = .waiting ∧ s.tmp 0 = true) ∧
      s.handler 1 = .returned .served ∧ (∀ w, (s.worker w).job ≠ some 1) ∧ s.tmp 1 = false := by
  obtain ⟨s, hrun, hstarted, -, hw0, hw1, hwait, -⟩ := two_begun
  have hreply := (hrun.tail (.finish s 0 1 hw0)).tail (.reply _ 0 1 (by simp))
  have hback := hreply.tail (.back _ 1 hwait (by simp))
  have hw1' : Function.update (Function.update s.worker 0 (.reply 1)) 0 .receive 1 = .upload 0 := by simp [hw1]
  have hserved : Function.update s.handler 1 (.returned .served) 1 = .returned .served := Function.update_self _ _ _
  obtain ⟨hnodup, hsent, -, hup, hdone⟩ := uploads_run_once hback
  exact ⟨_, hback, hstarted, hnodup, hsent, hw1', hup 1 0 hw1', hserved, (hdone 1 hserved).2⟩

/-- The upload of the one is stranded; the other worker answers the other request. -/
theorem a_stranded_upload_leaves_a_worker : ∃ s : Uploads Nat (Fin 2), s.worker 1 = .stranded 0 ∧
    ∃ s', Run true uploadQueueSize s s' ∧ s'.handler 1 = .returned .served := by
  obtain ⟨s, hrun, -, -, hw0, hw1, hwait, -⟩ := two_begun
  have hstranded := hrun.tail (.strand s 1 0 rfl hw1)
  refine ⟨_, by simp, uploads_come_back (by decide) hstranded 0 (fun _ j => ?_) (fun _ v => ?_) (Or.inr hwait)⟩
  · simp [hw0]
  · match v with
    | 0 => simp [hw0]
    | 1 => simp

end Uploads

end GoFastdfs
