/-
  GoFastdfs.PackLock — calls of `SaveSmallFile` on one pack at a time (`http_upload.go`),
  under the lock of its path.

  Each call opens the pack for itself, seeks its end, writes the marker there, seeks the
  end again to learn the offset of what it has written, and copies the file behind it.
  The offset and the places of the writes are right only if nobody writes in between,
  which the lock of the path is for. A call that fails leaves what it has written.

  Proved: in every calm run of any number of workers the extents recorded lie one after
  the other, and each holds the marker and its file's bytes (`packs_are_sound`); alone, a
  call leaves what the sequential `saveSmallFile` does (`alone_appends`). A third worker
  that comes while the second waits can take the place of the second's file
  (`a_third_worker_shares_the_extent`).
-/

import GoFastdfs.KeyLock
import GoFastdfs.SmallFile

namespace GoFastdfs

open Go (Str)
open KeyLock (Program Keeps)

variable (c : Config) (pack : Nat)

/-! ## The calls -/

/-- A call: the record, and its file's bytes if it is there. `SaveUploadFile` sets the size
    to what it has written. -/
structure SmallCall where
  fi : FileInfo
  source : Option Str
  size : ∀ x, source = some x → fi.size = x.length

/-- Where a call is between `LockKey` and `UnLockKey`; `pos` is the offset of its own
    descriptor. -/
inductive Stage where
  | opened (call : SmallCall)
  | sought (fi : FileInfo) (data : Str) (pos : Nat)
  | marked (fi : FileInfo) (data : Str)
  | placed (fi : FileInfo) (data : Str) (off pos : Nat)
  | left

/-- The pack's bytes, and the records of the completed calls with their files' bytes. -/
structure PackFile where
  content : Str
  recorded : List (FileInfo × Str) := []

/-- The steps on the pack; opening, seeking, writing and copying may fail. -/
inductive PackWork : Stage → PackFile → Stage → PackFile → Prop
  | missing (call : SmallCall) (p : PackFile) : call.source = none → PackWork (.opened call) p .left p
  | openFails (call : SmallCall) (p : PackFile) : PackWork (.opened call) p .left p
  | seek (call : SmallCall) (p : PackFile) (x : Str) : call.source = some x →
      PackWork (.opened call) p (.sought call.fi x p.content.length) p
  | mark (fi : FileInfo) (x : Str) (pos : Nat) (p : PackFile) :
      PackWork (.sought fi x pos) p (.marked fi x) { p with content := Disk.overwrite p.content pos ['1'] }
  | markFails (fi : FileInfo) (x : Str) (pos : Nat) (p : PackFile) : PackWork (.sought fi x pos) p .left p
  | seekAgain (fi : FileInfo) (x : Str) (p : PackFile) :
      PackWork (.marked fi x) p (.placed fi x (p.content.length - 1) p.content.length) p
  | seekFails (fi : FileInfo) (x : Str) (p : PackFile) : PackWork (.marked fi x) p .left p
  | copy (fi : FileInfo) (x : Str) (off pos : Nat) (p : PackFile) :
      PackWork (.placed fi x off pos) p .left
        { content := Disk.overwrite p.content pos x, recorded := p.recorded ++ [(mergedInfo c fi pack off, x)] }
  | copyFails (fi : FileInfo) (x : Str) (off pos k : Nat) (p : PackFile) :
      PackWork (.placed fi x off pos) p .left { p with content := Disk.overwrite p.content pos (x.take k) }

def packProgram : Program SmallCall Stage PackFile where
  start := .opened
  work := PackWork c pack
  done := (· = .left)

/-! ## What a call keeps -/

/-- Every record's extent is in the pack with the marker and the bytes, and ends where the
    extents of later records may begin. -/
structure PackSound (p : PackFile) : Prop where
  holds : ∀ r ∈ p.recorded, ∃ off : Nat, r.1.offSet = off ∧ r.1.size = (r.2.length + 1 : Nat) ∧
    Disk.slice p.content off (r.2.length + 1) = some ('1' :: r.2)
  apart : p.recorded.Pairwise fun a b => a.1.offSet + a.1.size ≤ b.1.offSet

def Before (p : PackFile) (n : Nat) : Prop := ∀ r ∈ p.recorded, r.1.offSet + r.1.size ≤ n

def Marked (p : PackFile) (off : Nat) : Prop := ∃ f, p.content = f ++ ['1'] ∧ f.length = off ∧ Before p off

def packInv : Option Stage → PackFile → Prop
  | none, p | some .left, p | some (.opened _), p => PackSound p
  | some (.sought fi x pos), p => PackSound p ∧ fi.size = x.length ∧ pos = p.content.length
  | some (.marked fi x), p => PackSound p ∧ fi.size = x.length ∧ ∃ off, Marked p off
  | some (.placed fi x off pos), p => PackSound p ∧ fi.size = x.length ∧ Marked p off ∧ pos = p.content.length

theorem overwrite_at_end (old data : Str) : Disk.overwrite old old.length data = old ++ data := by
  simp [Disk.overwrite]

theorem PackSound.before {p : PackFile} (h : PackSound p) : Before p p.content.length := by
  intro r hr
  obtain ⟨off, hoff, hsize, hslice⟩ := h.holds r hr
  have := Disk.le_of_slice (Nat.succ_ne_zero _) hslice
  rw [hoff, hsize]
  omega

theorem PackSound.append {p : PackFile} (h : PackSound p) (tail : Str) : PackSound { p with content := p.content ++ tail } := by
  refine ⟨?_, h.apart⟩
  intro r hr
  obtain ⟨off, hoff, hsize, hslice⟩ := h.holds r hr
  exact ⟨off, hoff, hsize, Disk.slice_append hslice tail⟩

/-- The copy behind the marker makes the extent of a new record. -/
theorem PackSound.copy {p : PackFile} (h : PackSound p) {fi : FileInfo} {x : Str} {off : Nat} (hsize : fi.size = x.length)
    (hm : Marked p off) :
    PackSound { content := p.content ++ x, recorded := p.recorded ++ [(mergedInfo c fi pack off, x)] } := by
  obtain ⟨f, hf, rfl, hbefore⟩ := hm
  have hnew : Disk.slice (p.content ++ x) f.length (x.length + 1) = some ('1' :: x) := by
    have := Disk.slice_at_end f ('1' :: x)
    rwa [hf, List.append_assoc, List.singleton_append]
  have hsz : (mergedInfo c fi pack f.length).size = (x.length + 1 : Nat) := by
    show fi.size + 1 = _
    omega
  constructor
  · intro r hr
    rcases List.mem_append.mp hr with hr | hr
    · exact (h.append x).holds r hr
    · rw [List.mem_singleton.mp hr]
      exact ⟨f.length, rfl, hsz, hnew⟩
  · refine List.pairwise_append.mpr ⟨h.apart, List.pairwise_singleton _ _, ?_⟩
    intro a ha b hb
    rw [List.mem_singleton.mp hb]
    exact hbefore a ha

theorem packProgram_keeps : Keeps (packProgram c pack) packInv := by
  constructor
  · exact fun _ _ h => h
  · intro k p k' p' h hw
    cases hw with
    | missing call p _ => exact h
    | openFails call p => exact h
    | seek call p x hx => exact ⟨h, call.size x hx, rfl⟩
    | mark fi x pos p =>
      obtain ⟨hs, hsize, rfl⟩ := h
      simp only [overwrite_at_end]
      exact ⟨hs.append ['1'], hsize, p.content.length, p.content, rfl, rfl, hs.before⟩
    | markFails fi x pos p => exact h.1
    | seekAgain fi x p =>
      obtain ⟨hs, hsize, off, hm⟩ := h
      obtain ⟨f, hf, rfl, hb⟩ := hm
      have hoff : p.content.length - 1 = f.length := by rw [hf]; simp
      rw [hoff]
      exact ⟨hs, hsize, ⟨f, hf, rfl, hb⟩, rfl⟩
    | seekFails fi x p => exact h.1
    | copy fi x off pos p =>
      obtain ⟨hs, hsize, hm, rfl⟩ := h
      simp only [overwrite_at_end]
      exact hs.copy c pack hsize hm
    | copyFails fi x off pos k p =>
      obtain ⟨hs, hsize, hm, rfl⟩ := h
      simp only [overwrite_at_end]
      exact hs.append _
  · intro k p h hd
    cases hd
    exact h

/-! ## Alone -/

abbrev PackRun : Stage × PackFile → Stage × PackFile → Prop :=
  Relation.ReflTransGen fun a b => PackWork c pack a.1 a.2 b.1 b.2

theorem alone_appends (call : SmallCall) {x : Str} (hx : call.source = some x) (p : PackFile) :
    PackRun c pack (.opened call, p) (.left,
      { content := p.content ++ '1' :: x, recorded := p.recorded ++ [(mergedInfo c call.fi pack p.content.length, x)] }) := by
  have h1 : PackRun c pack (.opened call, p) (.sought call.fi x p.content.length, p) := .single (.seek call p x hx)
  have h2 : PackRun c pack (.opened call, p) (.marked call.fi x, { p with content := p.content ++ ['1'] }) := by
    have := @PackWork.mark c pack call.fi x p.content.length p
    rw [overwrite_at_end] at this
    exact h1.tail this
  have h3 : PackRun c pack (.opened call, p) (.placed call.fi x p.content.length (p.content.length + 1),
      { p with content := p.content ++ ['1'] }) := by
    have := @PackWork.seekAgain c pack call.fi x { p with content := p.content ++ ['1'] }
    simp only [List.length_append, List.length_singleton, Nat.add_sub_cancel] at this
    exact h2.tail this
  have h4 := @PackWork.copy c pack call.fi x p.content.length (p.content ++ ['1']).length
    { p with content := p.content ++ ['1'] }
  rw [overwrite_at_end, List.append_assoc, List.length_append] at h4
  exact h3.tail h4

/-- A completed `saveSmallFile` is such a run on the bytes of its pack. -/
theorem saveSmallFile_runs {d : Disk} {fi fi' : FileInfo} {w : Draw} {x : Str}
    (hs : NoPack c (withLargeDir c d) (getFilePathByInfo c fi)) (hx : d.read (getFilePathByInfo c fi) = some x)
    (hsize : fi.size = x.length) (h : (saveSmallFile c d fi w).1 = some fi') :
    let old := ((withLargeDir c d).read (packPath c (Go.itoa w.pack))).getD []
    ∃ new, (saveSmallFile c d fi w).2.read (packPath c (Go.itoa w.pack)) = some new ∧
      PackRun c w.pack (.opened ⟨fi, some x, fun _ e => Option.some.inj e ▸ hsize⟩, { content := old })
        (.left, { content := new, recorded := [(fi', x)] }) := by
  have h0 := (withLargeDir_grow c d).read hx
  rcases saveSmallFile_cases c d fi w with e | ⟨hf, e⟩ | ⟨d1, h1, e | ⟨d2, b, h2, e⟩ | ⟨d2, src, hsrc, h2, e⟩⟩
  · rw [e] at h; cases h
  · rw [Disk.fileExists_of_read h0] at hf; cases hf
  · rw [e] at h; cases h
  · rw [e] at h; cases h
  · rw [e] at h ⊢
    obtain rfl := Option.some.inj h
    obtain rfl : x = src := Option.some.inj (h0.symm.trans hsrc)
    obtain ⟨s1, hs1⟩ := Disk.append_keeps h1 hsrc
    obtain ⟨s2, hs2⟩ := Disk.append_keeps h2 hs1
    have hpack := Disk.read_append h2
    rw [Disk.read_append h1, Option.getD_some, List.append_assoc] at hpack
    refine ⟨_, ?_, alone_appends c w.pack ⟨fi, some x, fun _ e => Option.some.inj e ▸ hsize⟩ rfl _⟩
    show ((d2.remove (getFilePathByInfo c fi)).getD d2).read _ = _
    rw [Disk.read_remove hs2, hpack]
    · rfl
    · intro l hl
      rw [Disk.locate_append h2, Disk.locate_append h1] at hl ⊢
      exact hs _ w.pack_range.1 w.pack_range.2 l hl

/-! ## Any number of workers -/

def destPath : Str := packPath c (Go.itoa pack)

def destFlag : Str := destPath c pack ++ "_lock_".toList

theorem destFlag_ne : destFlag c pack ≠ destPath c pack := by
  intro h
  have := congrArg List.length h
  simp [destFlag] at this

variable {ι : Type} [DecidableEq ι]

abbrev PackState (ι : Type) : Type := KeyLock.State Str ι SmallCall Stage PackFile

/-- The workers' steps, where no worker calls `LockKey` while another waits, or while one is
    inside that had to wait. -/
abbrev CalmPackStep : PackState ι → PackState ι → Prop :=
  KeyLock.CalmStep (packProgram c pack) (destPath c pack) (destFlag c pack)

theorem packInv_sound {o : Option Stage} {p : PackFile} (h : packInv o p) : PackSound p := by
  cases o with
  | none => exact h
  | some k =>
    cases k with
    | opened _ | left => exact h
    | sought _ _ _ | marked _ _ | placed _ _ _ _ => exact h.1

/-- In a calm run one worker at most is inside and nobody waits for good; the extents
    recorded lie apart, and each holds the marker and the bytes. -/
theorem packs_are_sound {x : Str} {s : PackState ι}
    (h : Relation.ReflTransGen (CalmPackStep c pack) (KeyLock.init { content := x }) s) :
    (∀ i j, s.Inside i → s.Inside j → i = j) ∧ (∀ i, ¬ s.Stranded i) ∧
      (s.shared.recorded.Pairwise fun a b => a.1.offSet + a.1.size ≤ b.1.offSet ∨ b.1.offSet + b.1.size ≤ a.1.offSet) ∧
      ∀ r ∈ s.shared.recorded, r.1.size = (r.2.length + 1 : Nat) ∧
        Disk.slice s.shared.content r.1.offSet.toNat r.1.size.toNat = some ('1' :: r.2) := by
  obtain ⟨_, hone, hfree⟩ := KeyLock.calm_run _ _ _ (destFlag_ne c pack) h
  have hinit : packInv none { content := x } :=
    ⟨fun r hr => absurd hr List.not_mem_nil, List.Pairwise.nil⟩
  have hholds := KeyLock.keeps_run _ _ _ (destFlag_ne c pack) (packProgram_keeps c pack) hinit h
  have hsound : PackSound s.shared := by
    by_cases hin : ∃ i, s.Inside i
    · obtain ⟨i, k, hk⟩ := hin
      exact packInv_sound (hholds.inside i k hk)
    · exact packInv_sound (hholds.outside fun i hi => hin ⟨i, hi⟩)
  refine ⟨hone, hfree, hsound.apart.imp Or.inl, ?_⟩
  intro r hr
  obtain ⟨off, hoff, hsize, hslice⟩ := hsound.holds r hr
  rw [hoff, hsize]
  exact ⟨rfl, hslice⟩

abbrev PackStep : PackState ι → PackState ι → Prop :=
  KeyLock.Step (packProgram c pack) (destPath c pack) (destFlag c pack)

theorem packProgram_ends : KeyLock.Ends (packProgram c pack) := by
  intro k p
  cases k with
  | opened call => exact ⟨.left, p, .single (.openFails call p), rfl⟩
  | sought fi x pos => exact ⟨.left, p, .single (.markFails fi x pos p), rfl⟩
  | marked fi x => exact ⟨.left, p, .single (.seekFails fi x p), rfl⟩
  | placed fi x off pos => exact ⟨.left, _, .single (.copyFails fi x off pos 0 p), rfl⟩
  | left => exact ⟨.left, p, .refl, rfl⟩

/-- No less is asked than needed: after any other call of `LockKey` two workers can come to
    be inside, or one can wait for good. -/
theorem uncalm_pack_call {x : Str} {s s' : PackState ι}
    (h : Relation.ReflTransGen (CalmPackStep c pack) (KeyLock.init { content := x }) s) (hs : PackStep c pack s s')
    (hcall : ∃ i, s.worker i = .idle ∧ s'.worker i ≠ .idle) (hcalm : ¬ KeyLock.Calm (destPath c pack) s) :
    ∃ t, Relation.ReflTransGen (PackStep c pack) s' t ∧ KeyLock.Broken t :=
  KeyLock.uncalm_call_breaks _ _ _ (packProgram_ends c pack) (destFlag_ne c pack)
    (KeyLock.calm_run _ _ _ (destFlag_ne c pack) h).1 hs hcall hcalm

/-! ## Three workers -/

def callOf (name : Str) (x : Str) : SmallCall :=
  ⟨{ name := name, size := x.length }, some x, fun _ e => by cases e; rfl⟩

def emptyCall : SmallCall := ⟨{}, none, fun _ e => by cases e⟩

variable {c pack} in
theorem packStep_work {s : PackState ι} (i : ι) {k k' : Stage} {p : PackFile} (hi : s.worker i = .inside k)
    (hw : PackWork c pack k s.shared k' p) : PackStep c pack s { s.at_ i (.inside k') with shared := p } :=
  .work s i k k' p hi hw

variable {c pack} in
theorem packStep_unlock {s : PackState ι} (i : ι) (n : Nat) (hi : s.worker i = .inside .left)
    (hm : s.map.get (destPath c pack) = some (.mutex n)) (hl : s.locked n = true) :
    PackStep c pack s { (s.at_ i .idle).lock n false with map := (s.map.del (destFlag c pack)).del (destPath c pack) } :=
  .unlock s i .left n hi rfl hm hl

/-- The first worker is done while the second waits for its mutex; the second gets it, and
    the third finds none. Both write to one place, and the first file's bytes are gone. -/
theorem a_third_worker_shares_the_extent :
    ∃ s : PackState (Fin 3), Relation.ReflTransGen (PackStep {} 150) (KeyLock.init { content := [] }) s ∧
      s.Inside 1 ∧ s.Inside 2 ∧ s.shared.content = "1bb".toList ∧
      s.shared.recorded.map (fun r => (r.1.offSet, r.1.size, r.2)) = [(0, 2, "a".toList), (0, 3, "bb".toList)] := by
  have h1 := Relation.ReflTransGen.single (r := PackStep {} 150)
    (.create (KeyLock.init { content := [] }) (0 : Fin 3) emptyCall rfl rfl)
  have h2 := h1.tail (.wait _ 1 (callOf "a".toList "a".toList) 0 rfl (by decide +kernel))
  have h3 := h2.tail (packStep_work 0 rfl (.missing emptyCall _ rfl))
  have h4 := h3.tail (packStep_unlock 0 0 rfl (by decide +kernel) rfl)
  have h5 := h4.tail (.acquire _ 1 (callOf "a".toList "a".toList) 0 rfl rfl)
  have h6 := h5.tail (.create _ 2 (callOf "b".toList "bb".toList) rfl (by decide +kernel))
  have h7 := h6.tail (packStep_work 1 rfl (.seek (callOf "a".toList "a".toList) _ "a".toList rfl))
  have h8 := h7.tail (packStep_work 2 rfl (.seek (callOf "b".toList "bb".toList) _ "bb".toList rfl))
  have h9 := h8.tail (packStep_work 1 rfl (.mark _ _ _ _))
  have h10 := h9.tail (packStep_work 2 rfl (.mark _ _ _ _))
  have h11 := h10.tail (packStep_work 1 rfl (.seekAgain _ _ _))
  have h12 := h11.tail (packStep_work 2 rfl (.seekAgain _ _ _))
  have h13 := h12.tail (packStep_work 1 rfl (.copy _ _ _ _ _))
  have h14 := h13.tail (packStep_work 2 rfl (.copy _ _ _ _ _))
  exact ⟨_, h14, ⟨.left, rfl⟩, ⟨.left, rfl⟩, by decide +kernel, by decide +kernel⟩

variable {c pack} in
theorem calm_of_busy {s s' : PackState ι} (i : ι) (hi : s.Waits i ∨ s.Inside i) (hs : PackStep c pack s s')
    (hrest : ∀ j, j ≠ i → s'.worker j = s.worker j) : CalmPackStep c pack s s' := by
  refine ⟨hs, fun h => ?_⟩
  obtain ⟨j, hj, hj'⟩ := h
  by_cases hji : j = i
  · rw [hji] at hj
    rcases hi with ⟨n, x, hi⟩ | ⟨k, hi⟩
    · rw [hi] at hj; cases hj
    · rw [hi] at hj; cases hj
  · exact absurd ((hrest j hji).trans hj) hj'

variable {c pack} in
theorem calm_work {s : PackState ι} (i : ι) {k k' : Stage} {p : PackFile} (hi : s.worker i = .inside k)
    (hw : PackWork c pack k s.shared k' p) : CalmPackStep c pack s { s.at_ i (.inside k') with shared := p } :=
  calm_of_busy i (.inr ⟨k, hi⟩) (packStep_work i hi hw) fun _ hj => KeyLock.worker_at_ne hj

/-- A second call waits for the first, and is let in when the first is out: both merge their
    files, one behind the other. -/
theorem two_calls_in_turn_are_sound :
    ∃ s : PackState (Fin 2), s.shared.content = "1a1bb".toList ∧ s.shared.recorded.length = 2 ∧
      (s.shared.recorded.Pairwise fun a b => a.1.offSet + a.1.size ≤ b.1.offSet ∨ b.1.offSet + b.1.size ≤ a.1.offSet) ∧
      ∀ r ∈ s.shared.recorded, r.1.size = (r.2.length + 1 : Nat) ∧
        Disk.slice s.shared.content r.1.offSet.toNat r.1.size.toNat = some ('1' :: r.2) := by
  have hfree : KeyLock.Calm (destPath {} 150) (KeyLock.init { content := [] } : PackState (Fin 2)) := by
    constructor
    · intro i h
      obtain ⟨n, x, h⟩ := h
      cases h
    · intro h
      obtain ⟨i, k, h⟩ := h
      cases h
  have h1 := Relation.ReflTransGen.single (r := CalmPackStep {} 150)
    ⟨.create (KeyLock.init { content := [] }) 0 (callOf "a".toList "a".toList) rfl rfl, fun _ => hfree⟩
  -- the first is inside and has made the mutex of the map, so the second may come
  have h2 := h1.tail ⟨.wait _ 1 (callOf "b".toList "bb".toList) 0 rfl (by decide +kernel), fun _ => ⟨fun i h => (by
    obtain ⟨n, x, h⟩ := h
    match i with
    | 0 => cases h
    | 1 => cases h), fun _ => by decide +kernel⟩⟩
  have h3 := h2.tail (calm_work 0 rfl (.seek (callOf "a".toList "a".toList) _ "a".toList rfl))
  have h4 := h3.tail (calm_work 0 rfl (.mark _ _ _ _))
  have h5 := h4.tail (calm_work 0 rfl (.seekAgain _ _ _))
  have h6 := h5.tail (calm_work 0 rfl (.copy _ _ _ _ _))
  have h7 := h6.tail (calm_of_busy 0 (.inr ⟨.left, rfl⟩) (packStep_unlock 0 0 rfl (by decide +kernel) rfl)
    fun _ hj => KeyLock.worker_at_ne hj)
  have h8 := h7.tail (calm_of_busy 1 (.inl ⟨0, _, rfl⟩) (.acquire _ 1 (callOf "b".toList "bb".toList) 0 rfl rfl)
    fun _ hj => KeyLock.worker_at_ne hj)
  have h9 := h8.tail (calm_work 1 rfl (.seek (callOf "b".toList "bb".toList) _ "bb".toList rfl))
  have h10 := h9.tail (calm_work 1 rfl (.mark _ _ _ _))
  have h11 := h10.tail (calm_work 1 rfl (.seekAgain _ _ _))
  have h12 := h11.tail (calm_work 1 rfl (.copy _ _ _ _ _))
  exact ⟨_, by decide +kernel, rfl, (packs_are_sound {} 150 h12).2.2⟩

end GoFastdfs
