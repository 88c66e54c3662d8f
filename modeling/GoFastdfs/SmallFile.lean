/-
  GoFastdfs.SmallFile — merged small files (`SaveSmallFile` of `http_upload.go`,
  `GetSmallFileByURI`, `DownloadSmallFileByURI`, `ResizeImageByBytes`).

  A small file is appended to one of two hundred pack files behind a marker byte `1`,
  and its source is removed. Calls on one pack are serialised by a lock, so a run is a
  sequence of calls; a copy that fails leaves its marker and part of the data behind.
  Nothing checks that the source is not itself a pack.

  Proved: a call only appends to packs (`saveSmallFile_keeps`) and what it returns reads
  back (`saveSmallFile_stored`); so over every run of calls whose sources are not
  packs, each file returned reads back as the marker and its bytes, and is sent as its
  bytes unless the request asks for another size (`small_files_round_trip`). An
  extension is written into the address as it is, so a name can ask for one
  (`an_extension_can_ask_for_a_resize`), and a record that names a pack takes it away
  (`a_pack_can_be_merged_away`).
-/

import GoFastdfs.Request
import Mathlib.Logic.Relation

namespace GoFastdfs

open Go (Str)

variable (c : Config)

/-! ## Saving -/

/-- What the surroundings decide of a call: the pack drawn (`RandInt(100, 300)`), the
    bytes after which `io.Copy` fails if it does, and the time. -/
structure Draw where
  pack : Nat
  pack_range : 100 ≤ pack ∧ pack < 300
  failAfter : Option Nat
  now : Int

/-- The disk once the pack directory is made sure of. -/
def withLargeDir (d : Disk) : Disk :=
  let largeDir := c.LARGE_DIR ++ '/' :: c.peerId
  if d.fileExists largeDir then d else d.mkdirAll largeDir

/-- What `io.Copy` writes behind the marker, and whether it ends without error. A file
    copied to its own end never ends. -/
def ioCopy (src : Str) (same : Bool) (failAfter : Option Nat) : Str × Bool :=
  if same then (((List.replicate (failAfter.getD 0) (src ++ ['1'])).flatten).take (failAfter.getD 0), false)
  else
    match failAfter with
    | some k => (src.take k, false)
    | none => (src, true)

def mergedInfo (fi : FileInfo) (pack : Nat) (offset : Nat) : FileInfo :=
  { fi with
    offSet := offset, size := fi.size + 1
    reName := smallName (Go.itoa pack) offset (fi.size + 1) (Go.pathExt fi.name)
    path := Go.replaceFirst c.dockerDir [] (c.LARGE_DIR ++ '/' :: c.peerId) }

/-- `SaveSmallFile`: the record, or an error. -/
def saveSmallFile (d : Disk) (fi : FileInfo) (w : Draw) : Option FileInfo × Disk :=
  let fpath := getFilePathByInfo c fi
  let d := withLargeDir c d
  let destPath := packPath c (Go.itoa w.pack)
  if d.fileExists fpath then
    match d.read fpath with
    | none => (none, d)
    | some src =>
      let offSet := ((d.read destPath).getD []).length
      match d.append destPath ['1'] w.now with
      | none => (none, d)
      | some d1 =>
        let copied := ioCopy src (d.locate fpath == d.locate destPath) w.failAfter
        match d1.append destPath copied.1 w.now with
        | none => (none, d1)
        | some d2 => if copied.2 then (some (mergedInfo c fi w.pack offSet), (d2.remove fpath).getD d2) else (none, d2)
  else (some fi, d)

/-! ## Reading -/

inductive SmallRead where
  | data (bytes : Str)
  | none (notFound : Bool)
  | panic
  deriving DecidableEq, Repr

def getSmallFileByURI (d : Disk) (r : Request) : SmallRead :=
  let fullpath := (getFilePathFromRequest c r).1
  match parseSmallFile r.requestURI with
  | none => .none false
  | some (_, offset, length) =>
    match d.stat fullpath with
    | none => .none false
    | some n =>
      if n.size < Int.bmod (offset + length) (2 ^ 64) then .none true
      else if length < 0 then .panic
      else
        match n with
        | .dir => if length = 0 then .data [] else .none false
        | .file data _ =>
          match Disk.slice data offset.toNat length.toNat with
          | some b => .data b
          | none => .none false

structure Images (Img : Type) where
  decode : Str → Option (Img × Str)
  resize : Nat → Nat → Img → Img
  jpeg : Img → Str
  png : Img → Str

variable {Img : Type} (I : Images Img)

def toUint (n : Int) : Nat := (n % 2 ^ 64).toNat

def resizeImageByBytes (data : Str) (width height : Int) : Str :=
  match I.decode data with
  | none => []
  | some (img, imgType) =>
    let img := I.resize (toUint width) (toUint height) img
    if imgType = "jpg".toList ∨ imgType = "jpeg".toList then I.jpeg img
    else if imgType = "png".toList then I.png img
    else data

/-- `width` or `height` of a request. -/
def imageSide (r : Request) (key : Str) (max : Int) : Int :=
  let v := r.formValue key
  if v = [] then 0 else min (Go.parseInt v).1 max

def imageSize (r : Request) : Int × Int :=
  (imageSide r "width".toList c.imageMaxWidth, imageSide r "height".toList c.imageMaxHeight)

def isDownload (r : Request) : Bool :=
  let v := r.formValue "download".toList
  if v = "0".toList then false else if v = [] then c.defaultDownload else true

inductive Body where
  | sent (attachment : Bool) (bytes : Str)
  | notFound
  | panic
  deriving DecidableEq, Repr

def downloadSmallFileByURI (d : Disk) (r : Request) : Body :=
  match getSmallFileByURI c d r with
  | .none _ => .notFound
  | .panic => .panic
  | .data [] => .panic
  | .data (b :: bytes) =>
    if b = '1' then
      if (imageSize c r).1 ≠ 0 ∨ (imageSize c r).2 ≠ 0 then
        .sent (isDownload c r) (resizeImageByBytes I bytes (imageSize c r).1 (imageSize c r).2)
      else .sent (isDownload c r) bytes
    else .notFound

/-! ## One call -/

theorem withLargeDir_grow (d : Disk) : d.Grow (withLargeDir c d) := by
  simp only [withLargeDir]
  split
  · exact .refl d
  · exact d.mkdirAll_grow _

theorem large_eq : c.LARGE_DIR ++ '/' :: c.peerId = c.dockerDir ++ largePath c := by
  have : "/haystack".toList = '/' :: LARGE_DIR_NAME := rfl
  simp only [largePath, Config.LARGE_DIR, Config.STORE_DIR, this, List.append_assoc, List.cons_append]

@[simp] theorem mergedInfo_path (fi : FileInfo) (pack offset : Nat) : (mergedInfo c fi pack offset).path = largePath c := by
  simp only [mergedInfo, large_eq, Go.replaceFirst_append, List.nil_append]

theorem mergedInfo_outname (fi : FileInfo) (pack offset : Nat) :
    (mergedInfo c fi pack offset).outname = smallName (Go.itoa pack) offset (fi.size + 1) (Go.pathExt fi.name) := by
  have : smallName (Go.itoa pack) offset (fi.size + 1) (Go.pathExt fi.name) ≠ [] := by simp [smallName]
  simp only [FileInfo.outname, mergedInfo, this, if_false]

theorem ioCopy_ended {src : Str} {same : Bool} {failAfter : Option Nat} (h : (ioCopy src same failAfter).2 = true) :
    (ioCopy src same failAfter).1 = src := by
  unfold ioCopy at h ⊢
  split at h
  · cases h
  · rename_i hs
    rw [if_neg hs]
    cases failAfter with
    | some k => cases h
    | none => rfl

/-- Everything a call can do. -/
theorem saveSmallFile_cases (d : Disk) (fi : FileInfo) (w : Draw) :
    (saveSmallFile c d fi w = (none, withLargeDir c d)) ∨
    ((withLargeDir c d).fileExists (getFilePathByInfo c fi) = false ∧ saveSmallFile c d fi w = (some fi, withLargeDir c d)) ∨
    (∃ d1, (withLargeDir c d).append (packPath c (Go.itoa w.pack)) ['1'] w.now = some d1 ∧
      (saveSmallFile c d fi w = (none, d1) ∨
      (∃ d2 b, d1.append (packPath c (Go.itoa w.pack)) b w.now = some d2 ∧ saveSmallFile c d fi w = (none, d2)) ∨
      ∃ d2 src, (withLargeDir c d).read (getFilePathByInfo c fi) = some src ∧
        d1.append (packPath c (Go.itoa w.pack)) src w.now = some d2 ∧
        saveSmallFile c d fi w =
          (some (mergedInfo c fi w.pack (((withLargeDir c d).read (packPath c (Go.itoa w.pack))).getD []).length),
            (d2.remove (getFilePathByInfo c fi)).getD d2))) := by
  unfold saveSmallFile
  generalize withLargeDir c d = d0
  dsimp only
  split
  · split
    · exact Or.inl rfl
    · rename_i src hsrc
      split
      · exact Or.inl rfl
      · rename_i d1 h1
        refine Or.inr (Or.inr ⟨d1, h1, ?_⟩)
        split
        · exact Or.inl rfl
        · rename_i d2 h2
          split
          · rename_i hok
            -- a copy that ended wrote the whole source
            rw [ioCopy_ended hok] at h2
            exact Or.inr (Or.inr ⟨d2, src, hsrc, h2, rfl⟩)
          · exact Or.inr (Or.inl ⟨d2, _, h2, rfl⟩)
  · rename_i hf
    exact Or.inr (Or.inl ⟨by simpa using hf, rfl⟩)

/-- The source of a call is not one of the packs. -/
def NoPack (d : Disk) (p : Str) : Prop :=
  ∀ n : Nat, 100 ≤ n → n < 300 → ∀ l, d.locate p = some l → d.locate (packPath c (Go.itoa n)) ≠ some l

/-- A call appends to packs and takes nothing from one that is not its source, nor from its
    source unless it ends without error. -/
theorem saveSmallFile_keeps {d : Disk} {fi : FileInfo} {w : Draw} {n : Nat} {x : Str}
    (hs : ∀ fi', (saveSmallFile c d fi w).1 = some fi' → ∀ l, (withLargeDir c d).locate (getFilePathByInfo c fi) = some l →
      (withLargeDir c d).locate (packPath c (Go.itoa n)) ≠ some l)
    (hx : d.read (packPath c (Go.itoa n)) = some x) :
    ∃ tail, (saveSmallFile c d fi w).2.read (packPath c (Go.itoa n)) = some (x ++ tail) := by
  have h0 := (withLargeDir_grow c d).read hx
  have hkeep : ∃ tail, (withLargeDir c d).read (packPath c (Go.itoa n)) = some (x ++ tail) := ⟨[], by simpa using h0⟩
  rcases saveSmallFile_cases c d fi w with h | ⟨_, h⟩ | ⟨d1, h1, h⟩
  · rw [h]; exact hkeep
  · rw [h]; exact hkeep
  · obtain ⟨t1, ht1⟩ := Disk.append_keeps h1 h0
    rcases h with h | ⟨d2, b, h2, h⟩ | ⟨d2, src, hsrc, h2, h⟩
    · rw [h]; exact ⟨t1, ht1⟩
    · obtain ⟨t2, ht2⟩ := Disk.append_keeps h2 ht1
      rw [h]; exact ⟨t1 ++ t2, by rw [ht2, List.append_assoc]⟩
    · obtain ⟨t2, ht2⟩ := Disk.append_keeps h2 ht1
      rw [h] at hs ⊢
      obtain ⟨s1, hs1⟩ := Disk.append_keeps h1 hsrc
      obtain ⟨s2, hs2⟩ := Disk.append_keeps h2 hs1
      refine ⟨t1 ++ t2, ?_⟩
      rw [Disk.read_remove hs2, ht2, List.append_assoc]
      intro l hl
      rw [Disk.locate_append h2, Disk.locate_append h1] at hl ⊢
      exact hs _ rfl l hl

/-- A file that is neither the source nor the pack drawn reads what it read. -/
theorem saveSmallFile_frame {d : Disk} {fi : FileInfo} {w : Draw} {q x : Str} (hx : d.read q = some x)
    (hsrc : ∀ l, (withLargeDir c d).locate q = some l → (withLargeDir c d).locate (getFilePathByInfo c fi) ≠ some l)
    (hpack : ∀ l, (withLargeDir c d).locate q = some l → (withLargeDir c d).locate (packPath c (Go.itoa w.pack)) ≠ some l) :
    (saveSmallFile c d fi w).2.read q = some x := by
  have h0 := (withLargeDir_grow c d).read hx
  rcases saveSmallFile_cases c d fi w with h | ⟨_, h⟩ | ⟨d1, h1, h⟩
  · rw [h]; exact h0
  · rw [h]; exact h0
  · have hr1 : d1.read q = some x := (Disk.read_append_of_ne h1 hpack).trans h0
    have hpack1 : ∀ l, d1.locate q = some l → d1.locate (packPath c (Go.itoa w.pack)) ≠ some l := by
      intro l hl
      rw [Disk.locate_append h1] at hl ⊢
      exact hpack l hl
    rcases h with h | ⟨d2, b, h2, h⟩ | ⟨d2, src, hread, h2, h⟩
    · rw [h]; exact hr1
    · rw [h]; exact (Disk.read_append_of_ne h2 hpack1).trans hr1
    · have hr2 : d2.read q = some x := (Disk.read_append_of_ne h2 hpack1).trans hr1
      obtain ⟨s1, hs1⟩ := Disk.append_keeps h1 hread
      obtain ⟨s2, hs2⟩ := Disk.append_keeps h2 hs1
      rw [h]
      show ((d2.remove (getFilePathByInfo c fi)).getD d2).read q = some x
      rw [Disk.read_remove hs2, hr2]
      intro l hl hql
      rw [Disk.locate_append h2, Disk.locate_append h1] at hl hql
      exact hsrc l hql hl

/-- A copy of a pack to its own end never completes. -/
theorem saveSmallFile_apart {d : Disk} {fi fi' : FileInfo} {w : Draw}
    (hf : (withLargeDir c d).fileExists (getFilePathByInfo c fi) = true) (h : (saveSmallFile c d fi w).1 = some fi') :
    (withLargeDir c d).locate (getFilePathByInfo c fi) ≠ (withLargeDir c d).locate (packPath c (Go.itoa w.pack)) := by
  intro hsame
  unfold saveSmallFile at h
  dsimp only at h
  rw [if_pos hf] at h
  split at h
  · cases h
  split at h
  · cases h
  split at h
  · cases h
  · rw [beq_iff_eq.mpr hsame] at h
    cases h

theorem saveSmallFile_signed {d : Disk} {fi fi' : FileInfo} {w : Draw} (h : (saveSmallFile c d fi w).1 = some fi')
    (hsize : 0 ≤ fi.size) : fi'.md5 = fi.md5 ∧ 0 ≤ fi'.size := by
  rcases saveSmallFile_cases c d fi w with e | ⟨_, e⟩ | ⟨d1, _, e | ⟨d2, b, _, e⟩ | ⟨d2, src, _, _, e⟩⟩ <;> rw [e] at h
  · cases h
  · cases h
    exact ⟨rfl, hsize⟩
  · cases h
  · cases h
  · cases h
    refine ⟨rfl, ?_⟩
    show 0 ≤ fi.size + 1
    omega

theorem saveSmallFile_info {d : Disk} {fi fi' : FileInfo} {w : Draw} {x : Str} (hx : d.read (getFilePathByInfo c fi) = some x)
    (h : (saveSmallFile c d fi w).1 = some fi') : ∃ offset, fi' = mergedInfo c fi w.pack offset := by
  rcases saveSmallFile_cases c d fi w with e | ⟨hf, e⟩ | ⟨d1, _, e | ⟨d2, b, _, e⟩ | ⟨d2, src, _, _, e⟩⟩
  · rw [e] at h; cases h
  · rw [Disk.fileExists_of_read ((withLargeDir_grow c d).read hx)] at hf; cases hf
  · rw [e] at h; cases h
  · rw [e] at h; cases h
  · rw [e] at h
    exact ⟨_, (Option.some.inj h).symm⟩

/-- A record of `x` merged into pack `n` at `off`. -/
structure Merged (fi : FileInfo) (x : Str) (n off : Nat) : Prop where
  path : fi.path = largePath c
  pack : 100 ≤ n ∧ n < 300
  offset_lt : off < 2 ^ 63
  name : ∃ ext, '/' ∉ ext ∧ fi.outname = smallName (Go.itoa n) off ((x.length + 1 : Nat) : Int) ext
  offSet : fi.offSet = off
  size : fi.size = ((x.length + 1 : Nat) : Int)

def InPack (d : Disk) (x : Str) (n off : Nat) : Prop :=
  ∃ data, d.read (packPath c (Go.itoa n)) = some data ∧ Disk.slice data off (x.length + 1) = some ('1' :: x)

def Stored (d : Disk) (fi : FileInfo) (x : Str) : Prop := ∃ n off, Merged c fi x n off ∧ InPack c d x n off

theorem InPack.le {d : Disk} {x : Str} {n off : Nat} (h : InPack c d x n off) :
    off + (x.length + 1) ≤ ((d.read (packPath c (Go.itoa n))).getD []).length := by
  obtain ⟨data, hread, hslice⟩ := h
  rw [hread]
  exact Disk.le_of_slice (Nat.succ_ne_zero _) hslice

theorem Merged.unique {fi : FileInfo} {x y : Str} {n off n' off' : Nat} (h : Merged c fi x n off)
    (h' : Merged c fi y n' off') : n = n' ∧ off = off' ∧ x.length = y.length := by
  obtain ⟨ext, _, he⟩ := h.name
  obtain ⟨ext', _, he'⟩ := h'.name
  have hn := (Go.append_cons_inj (Go.notMem_itoa (by decide) n) (Go.notMem_itoa (by decide) n') (he.symm.trans he')).1
  have hoff : (off : Int) = off' := h.offSet.symm.trans h'.offSet
  have hlen : ((x.length + 1 : Nat) : Int) = ((y.length + 1 : Nat) : Int) := h.size.symm.trans h'.size
  exact ⟨Go.itoa_injective hn, by omega, by omega⟩

/-- What a completed call returns is in its pack, at what was the end. -/
theorem saveSmallFile_stored {d : Disk} {fi fi' : FileInfo} {w : Draw} {x : Str}
    (hx : d.read (getFilePathByInfo c fi) = some x) (hsize : fi.size = x.length) (h : (saveSmallFile c d fi w).1 = some fi') :
    Merged c fi' x w.pack (((withLargeDir c d).read (packPath c (Go.itoa w.pack))).getD []).length ∧
      InPack c (saveSmallFile c d fi w).2 x w.pack
        (((withLargeDir c d).read (packPath c (Go.itoa w.pack))).getD []).length := by
  have h0 := (withLargeDir_grow c d).read hx
  have hapart := saveSmallFile_apart c (Disk.fileExists_of_read h0) h
  rcases saveSmallFile_cases c d fi w with e | ⟨hf, e⟩ | ⟨d1, h1, e | ⟨d2, b, h2, e⟩ | ⟨d2, src, hsrc, h2, e⟩⟩
  · rw [e] at h; cases h
  · rw [Disk.fileExists_of_read h0] at hf; cases hf
  · rw [e] at h; cases h
  · rw [e] at h; cases h
  · rw [e] at h ⊢
    obtain rfl := Option.some.inj h
    obtain rfl : x = src := Option.some.inj (h0.symm.trans hsrc)
    have hpack := Disk.read_append h2
    rw [Disk.read_append h1] at hpack
    have hlen : (((withLargeDir c d).read (packPath c (Go.itoa w.pack))).getD []).length < 2 ^ 63 := by
      obtain ⟨_, _, _, _, hlt⟩ := Disk.append_eq_some h1
      rw [List.length_append] at hlt
      omega
    obtain ⟨s1, hs1⟩ := Disk.append_keeps h1 hsrc
    obtain ⟨s2, hs2⟩ := Disk.append_keeps h2 hs1
    have hsz : fi.size + 1 = ((x.length + 1 : Nat) : Int) := by rw [hsize]; push_cast; rfl
    refine ⟨⟨mergedInfo_path c fi _ _, w.pack_range, hlen, ⟨_, Go.slash_notMem_pathExt fi.name, ?_⟩, rfl, hsz⟩,
      ((withLargeDir c d).read (packPath c (Go.itoa w.pack))).getD [] ++ '1' :: x, ?_, Disk.slice_at_end _ ('1' :: x)⟩
    · rw [mergedInfo_outname, hsz]
    · show ((d2.remove (getFilePathByInfo c fi)).getD d2).read _ = _
      rw [Disk.read_remove hs2, hpack, Option.getD_some, List.append_assoc]
      · rfl
      · intro l hl
        rw [Disk.locate_append h2, Disk.locate_append h1] at hl ⊢
        exact fun hl' => hapart (hl.trans hl'.symm)

/-! ## Runs of calls -/

/-- Every pack of `d` is still there on `d'`, with more behind it or not. -/
def PacksGrow (d d' : Disk) : Prop :=
  ∀ n : Nat, 100 ≤ n ∧ n < 300 → ∀ x, d.read (packPath c (Go.itoa n)) = some x →
    ∃ tail, d'.read (packPath c (Go.itoa n)) = some (x ++ tail)

theorem InPack.grow {d d' : Disk} {x : Str} {n off : Nat} (h : InPack c d x n off) (hn : 100 ≤ n ∧ n < 300)
    (hg : PacksGrow c d d') : InPack c d' x n off := by
  obtain ⟨data, hread, hslice⟩ := h
  obtain ⟨tail, ht⟩ := hg n hn data hread
  exact ⟨data ++ tail, ht, Disk.slice_append hslice tail⟩

theorem Stored.grow {d d' : Disk} {fi : FileInfo} {x : Str} (h : Stored c d fi x) (hg : PacksGrow c d d') :
    Stored c d' fi x := by
  obtain ⟨n, off, hm, hp⟩ := h
  exact ⟨n, off, hm, hp.grow c hm.pack hg⟩

/-- A disk with the files merged so far, each with its bytes; a call whose source is no
    pack, or anything else that leaves the packs alone. -/
inductive SaveStep : Disk × List (FileInfo × Str) → Disk × List (FileInfo × Str) → Prop
  | save (d : Disk) (saved : List (FileInfo × Str)) (fi : FileInfo) (w : Draw) (x : Str) :
      d.read (getFilePathByInfo c fi) = some x → fi.size = x.length → x.length < 1024 * 1024 →
      NoPack c (withLargeDir c d) (getFilePathByInfo c fi) →
      SaveStep (d, saved) ((saveSmallFile c d fi w).2, saved ++ ((saveSmallFile c d fi w).1.map (·, x)).toList)
  | other (d d' : Disk) (saved : List (FileInfo × Str)) :
      (∀ n : Nat, 100 ≤ n ∧ n < 300 → d'.read (packPath c (Go.itoa n)) = d.read (packPath c (Go.itoa n))) →
      SaveStep (d, saved) (d', saved)

/-- Of two files merged one after the other, the second lies behind the first if they share
    a pack. -/
def Behind (a b : FileInfo × Str) : Prop :=
  ∀ n off off', Merged c a.1 a.2 n off → Merged c b.1 b.2 n off' → off + (a.2.length + 1) ≤ off'

/-- What holds of everything merged so far. -/
structure PackInv (s : Disk × List (FileInfo × Str)) : Prop where
  small : ∀ fi x, (fi, x) ∈ s.2 → x.length < 1024 * 1024
  stored : ∀ fi x, (fi, x) ∈ s.2 → Stored c s.1 fi x
  behind : s.2.Pairwise (Behind c)

theorem packInv_step {s s' : Disk × List (FileInfo × Str)} (hs : SaveStep c s s') (h : PackInv c s) : PackInv c s' := by
  cases hs with
  | save d saved fi w x hx hsize hlen hnp =>
    have hgrow : PacksGrow c d (saveSmallFile c d fi w).2 := fun n hn z hz =>
      saveSmallFile_keeps c (fun _ _ => hnp n hn.1 hn.2) hz
    cases hr : (saveSmallFile c d fi w).1 with
    | none =>
      simp only [Option.map_none, Option.toList_none, List.append_nil]
      exact ⟨h.small, fun fi' y hy => (h.stored fi' y hy).grow c hgrow, h.behind⟩
    | some fi' =>
      obtain ⟨hm, hp⟩ := saveSmallFile_stored c hx hsize hr
      simp only [Option.map_some, Option.toList_some]
      refine ⟨?_, ?_, List.pairwise_append.mpr ⟨h.behind, List.pairwise_singleton _ _, ?_⟩⟩
      · intro gi y hy
        rcases List.mem_append.mp hy with hy | hy
        · exact h.small gi y hy
        · obtain ⟨rfl, rfl⟩ := Prod.mk.inj (List.mem_singleton.mp hy)
          exact hlen
      · intro gi y hy
        rcases List.mem_append.mp hy with hy | hy
        · exact (h.stored gi y hy).grow c hgrow
        · obtain ⟨rfl, rfl⟩ := Prod.mk.inj (List.mem_singleton.mp hy)
          exact ⟨_, _, hm, hp⟩
      · -- the new file starts where its pack ended, and each old one ends before
        intro a hy b hb n off off' ha hb'
        obtain ⟨gi, y⟩ := a
        rw [List.mem_singleton.mp hb] at hb'
        obtain ⟨m, moff, hgm, hgp⟩ := h.stored gi y hy
        obtain ⟨rfl, rfl, _⟩ := hgm.unique c ha
        obtain ⟨rfl, rfl, _⟩ := hm.unique c hb'
        obtain ⟨data, hread, hslice⟩ := hgp
        exact InPack.le c ⟨data, (withLargeDir_grow c d).read hread, hslice⟩
  | other d d' saved hsame =>
    have hgrow : PacksGrow c d d' := fun n hn z hz => ⟨[], by rw [hsame n hn, hz, List.append_nil]⟩
    exact ⟨h.small, fun fi' y hy => (h.stored fi' y hy).grow c hgrow, h.behind⟩

theorem packInv_run {d0 : Disk} {s : Disk × List (FileInfo × Str)}
    (h : Relation.ReflTransGen (SaveStep c) (d0, []) s) : PackInv c s := by
  induction h with
  | refl => exact ⟨fun _ _ hx => (List.not_mem_nil hx).elim, fun _ _ hx => (List.not_mem_nil hx).elim, List.Pairwise.nil⟩
  | tail _ hs ih => exact packInv_step c hs ih

/-! ## Reading back -/

/-- For the address of a merged file, with any query behind it that has no `/`, the bytes
    read are the piece of the pack that the record names. -/
theorem getSmallFileByURI_merged (hc : SmallNames c) {d : Disk} {fi : FileInfo} {x : Str} (hlen : x.length < 1024 * 1024)
    {n off : Nat} (hm : Merged c fi x n off) {r : Request} {q : Str} (hq : '/' ∉ q)
    (hr : r.requestURI = '/' :: resultPath c fi ++ q) (b : Str) :
    getSmallFileByURI c d r = .data b ↔
      ∃ data, d.read (packPath c (Go.itoa n)) = some data ∧ Disk.slice data off (x.length + 1) = some b := by
  obtain ⟨ext, hext, hname⟩ := hm.name
  have huri : r.requestURI = '/' :: ((if c.supportGroupManage then c.group ++ ['/'] else []) ++
      (LARGE_DIR_NAME ++ '/' :: (c.peerId ++ '/' ::
        smallName (Go.itoa n) off ((x.length + 1 : Nat) : Int) (ext ++ q)))) := by
    rw [hr, resultPath_small c hm.path, hname]
    simp only [smallName, List.append_assoc, List.cons_append]
  have hfull := getFilePathFromRequest_small c hc huri
  have hparse : parseSmallFile r.requestURI = some (Go.itoa n, (off : Int), ((x.length + 1 : Nat) : Int)) := by
    have e : r.requestURI = ('/' :: ((if c.supportGroupManage then c.group ++ ['/'] else []) ++
        (LARGE_DIR_NAME ++ '/' :: c.peerId))) ++ '/' :: smallName (Go.itoa n) off ((x.length + 1 : Nat) : Int) (ext ++ q) := by
      rw [huri]; simp only [List.append_assoc, List.cons_append]
    rw [e]
    exact parseSmallFile_small hm.offset_lt (by omega) (by simp [hext, hq])
  have hneg : ¬ ((x.length + 1 : Nat) : Int) < 0 := by omega
  simp only [getSmallFileByURI, hparse, hfull, if_neg hneg, Int.toNat_natCast, Disk.read]
  cases hs : d.stat (packPath c (Go.itoa n)) with
  | none => simp
  | some nd =>
    cases nd with
    | dir =>
      have hlength : ((x.length + 1 : Nat) : Int) ≠ 0 := by omega
      simp only [hlength, if_false]
      split <;> simp
    | file data t =>
      simp only [Option.some.injEq, exists_eq_left']
      split
      · rename_i hlt
        -- too short a pack holds no such piece either
        refine ⟨fun h => (by cases h), fun h => ?_⟩
        have := Disk.le_of_slice (Nat.succ_ne_zero _) h
        have hoff := hm.offset_lt
        simp only [Node.size, Int.bmod_def] at hlt
        split at hlt <;> omega
      · split <;> simp_all

/-- A stored file is what the address made from its record reads. -/
theorem getSmallFileByURI_stored (hc : SmallNames c) {d : Disk} {fi : FileInfo} {x : Str} (hlen : x.length < 1024 * 1024)
    (hst : Stored c d fi x) {r : Request} {q : Str} (hq : '/' ∉ q) (hr : r.requestURI = '/' :: resultPath c fi ++ q) :
    getSmallFileByURI c d r = .data ('1' :: x) := by
  obtain ⟨n, off, hm, hp⟩ := hst
  exact (getSmallFileByURI_merged c hc hlen hm hq hr _).mpr hp

theorem slash_notMem_downloadQuery (fi : FileInfo) : '/' ∉ downloadQuery fi := by
  intro h
  rcases List.mem_append.mp h with h | h
  · rcases List.mem_append.mp h with h | h
    · exact absurd h (by decide)
    · exact Go.slash_notMem_pathEscape _ h
  · exact absurd h (by decide)

/-- Merged small files round-trip over every run: the address of each file returned, alone
    or with the query of a download address, reads the marker and the file's bytes, and
    the file is sent as it is where the request asks for no other size. -/
theorem small_files_round_trip (hc : SmallNames c) {d0 d : Disk} {saved : List (FileInfo × Str)}
    (hrun : Relation.ReflTransGen (SaveStep c) (d0, []) (d, saved)) {fi : FileInfo} {x : Str} (hfi : (fi, x) ∈ saved)
    (dom : Str) (host : Option Str) {r : Request}
    (hr : r.requestURI = (buildFileResult c dom fi host).1.path ∨
      r.requestURI = (buildFileResult c dom fi host).1.path ++ downloadQuery fi) :
    getSmallFileByURI c d r = .data ('1' :: x) ∧
      (imageSize c r = (0, 0) → downloadSmallFileByURI c I d r = .sent (isDownload c r) x) := by
  have hinv := packInv_run c hrun
  have hlen := hinv.small fi x hfi
  have hst := hinv.stored fi x hfi
  have hread : getSmallFileByURI c d r = .data ('1' :: x) := by
    rcases hr with hr | hr
    · exact getSmallFileByURI_stored c hc hlen hst (q := []) (by simp) (by rw [hr, List.append_nil]; rfl)
    · exact getSmallFileByURI_stored c hc hlen hst (slash_notMem_downloadQuery fi) hr
  refine ⟨hread, fun hz => ?_⟩
  simp only [downloadSmallFileByURI, hread, hz, ne_eq, not_true_eq_false, or_self, if_false, if_true]

/-! ## Fixed inputs -/

def Config.sample : Config :=
  { peerId := "p1".toList, group := "group1".toList, imageMaxWidth := 2000, imageMaxHeight := 2000 }

theorem Config.sample_smallNames : SmallNames Config.sample :=
  ⟨by decide, by decide, by decide, List.forall_iff_forall_mem.mp (by decide)⟩

def Draw.sample : Draw := ⟨150, by decide, none, 0⟩

def Images.none : Images Unit := ⟨fun _ => .none, fun _ _ i => i, fun _ => [], fun _ => []⟩

def hello (name : Str) : FileInfo :=
  { name := name, path := "files/default".toList, size := 5, timeStamp := 0, offSet := -1 }

def helloDisk (name : Str) : Disk := Disk.ofFiles [("files/default/".toList ++ name, "hello".toList)]

theorem hello_noPack : NoPack Config.sample (withLargeDir Config.sample (helloDisk "a.txt".toList))
    (getFilePathByInfo Config.sample (hello "a.txt".toList)) := by
  intro n h1 h2 l hl
  have hloc : (withLargeDir Config.sample (helloDisk "a.txt".toList)).locate
      (getFilePathByInfo Config.sample (hello "a.txt".toList)) =
      some ["files".toList, "default".toList, "a.txt".toList] := by decide +kernel
  have hpacks : ∀ n : Nat, n < 300 → (withLargeDir Config.sample (helloDisk "a.txt".toList)).locate
      (packPath Config.sample (Go.itoa n)) ≠ some ["files".toList, "default".toList, "a.txt".toList] := by decide +kernel
  rw [hloc] at hl
  exact hl ▸ hpacks n h2

/-- A file `a.txt` merged into an empty pack and sent back. -/
theorem small_files_round_trip_hello :
    getSmallFileByURI Config.sample (saveSmallFile Config.sample (helloDisk "a.txt".toList) (hello "a.txt".toList) .sample).2
      { requestURI := "/haystack/p1/150,0,6,.txt".toList } = .data "1hello".toList :=
  (small_files_round_trip Config.sample Images.none Config.sample_smallNames
    (.single (.save (helloDisk "a.txt".toList) [] (hello "a.txt".toList) .sample "hello".toList
      (by decide +kernel) rfl (by decide) hello_noPack))
    (show (mergedInfo Config.sample (hello "a.txt".toList) 150 0, "hello".toList) ∈ _ by decide +kernel) [] none
    (Or.inl (by decide +kernel))).1

/-- The extension of `a.b?width=10` asks for a picture ten pixels wide: the bytes are
    read, and what is sent is what the codecs make of them, here nothing. -/
theorem an_extension_can_ask_for_a_resize :
    let name := "a.b?width=10".toList
    let s := saveSmallFile Config.sample (helloDisk name) (hello name) .sample
    ∃ fi, s.1 = some fi ∧
      getSmallFileByURI Config.sample s.2 { requestURI := (buildFileResult Config.sample [] fi none).1.path } =
        .data ('1' :: "hello".toList) ∧
      downloadSmallFileByURI Config.sample Images.none s.2
        { requestURI := (buildFileResult Config.sample [] fi none).1.path } = .sent false [] :=
  ⟨mergedInfo Config.sample (hello "a.b?width=10".toList) 150 0, by decide +kernel⟩

/-- A record that names a pack as its file: the pack is merged into another and removed. -/
theorem a_pack_can_be_merged_away :
    let d := Disk.ofFiles [("files/haystack/p1/150".toList, "1hello".toList)]
    let fi : FileInfo := { name := "150".toList, path := "files/haystack/p1".toList, size := 6, offSet := -1 }
    let s := saveSmallFile Config.sample d fi ⟨151, by decide, none, 0⟩
    getSmallFileByURI Config.sample d { requestURI := "/haystack/p1/150,0,6,".toList } = .data "1hello".toList ∧
      s.1.isSome = true ∧
      getSmallFileByURI Config.sample s.2 { requestURI := "/haystack/p1/150,0,6,".toList } = .none false := by
  decide +kernel

end GoFastdfs
