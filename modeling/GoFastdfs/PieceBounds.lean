/-
  GoFastdfs.PieceBounds — the offset and the length of a merged file's address
  (`ParseSmallFile`, `GetSmallFileByURI` of `fileserver.go`, `DownloadSmallFileByURI` of
  `http_download.go`).

  Both are numbers of the client's. `ParseSmallFile` refuses an offset below zero and a
  length above the limit; a length of zero or below passes, and so do two numbers whose
  sum is no int64. The sum decides whether the pack is long enough, the length is what
  `ReadFileByOffSet` allocates, and the first byte read is looked at without a test.

  Proved: all three stay in range exactly if the sum does and a length that is read is
  positive (`inBounds_iff`); an address with length zero is answered by a crash
  (`a_piece_of_no_length_panics`).
-/

import GoFastdfs.SmallFile

namespace GoFastdfs

open Go (Str)

variable (c : Config)

/-! ## What an address asks for -/

/-- The last element of the address has `offset` and `length` behind its first two commas,
    and `ParseSmallFile` lets them pass. -/
def AsksPiece (uri : Str) (offset length : Int) : Prop :=
  ∃ name off len rest, (Go.afterLast '/' uri).splitOn ',' = name :: off :: len :: rest ∧
    Go.parseInt off = (offset, true) ∧ Go.parseInt len = (length, true) ∧ 0 ≤ offset ∧ length ≤ CONST_SMALL_FILE_SIZE

/-- The handler's arithmetic stays in range: the sum that is compared with the size does
    not wrap, the length passed to `ReadFileByOffSet` is positive and within the limit, and
    neither the buffer nor the first byte of it is out of range. -/
structure InBounds {Img : Type} (I : Images Img) (d : Disk) (r : Request) : Prop where
  sum : ∀ name offset length n, parseSmallFile r.requestURI = some (name, offset, length) →
    d.stat (getFilePathFromRequest c r).1 = some n → Int.bmod (offset + length) (2 ^ 64) = offset + length
  length : ∀ name offset length n, parseSmallFile r.requestURI = some (name, offset, length) →
    d.stat (getFilePathFromRequest c r).1 = some n → ¬ n.size < Int.bmod (offset + length) (2 ^ 64) →
    0 < length ∧ length ≤ CONST_SMALL_FILE_SIZE
  index : downloadSmallFileByURI c I d r ≠ .panic

section
variable {c}

theorem parseInt_ne_nil {s : Str} {n : Int} (h : Go.parseInt s = (n, true)) : s ≠ [] := by
  intro heq
  subst heq
  cases h

theorem parseInt_range {s : Str} {n : Int} (h : Go.parseInt s = (n, true)) : -2 ^ 63 ≤ n ∧ n < 2 ^ 63 := by
  unfold Go.parseInt at h
  dsimp only at h
  split at h
  · cases h
  · split_ifs at h <;> cases h <;> omega

theorem AsksPiece.length_uri {uri : Str} {offset length : Int} (h : AsksPiece uri offset length) : ¬ uri.length < 3 := by
  obtain ⟨name, off, len, rest, hsplit, hoff, hlen, -, -⟩ := h
  have hjoin : [','].intercalate ((Go.afterLast '/' uri).splitOn ',') = Go.afterLast '/' uri := List.intercalate_splitOn ','
  rw [hsplit] at hjoin
  have hle : (Go.afterLast '/' uri).length ≤ uri.length := (List.rtakeWhile_suffix _ uri).length_le
  have h1 := List.length_pos_iff.mpr (parseInt_ne_nil hoff)
  have h2 := List.length_pos_iff.mpr (parseInt_ne_nil hlen)
  have hcount := congrArg List.length hjoin
  cases rest <;> simp [List.intercalate] at hcount <;> omega

theorem parseSmallFile_isSome_iff {uri : Str} {offset length : Int} :
    (∃ name, parseSmallFile uri = some (name, offset, length)) ↔ AsksPiece uri offset length := by
  constructor
  · intro hp
    obtain ⟨name, h⟩ := hp
    unfold parseSmallFile at h
    split_ifs at h
    split at h
    · rename_i pos0 pos1 pos2 rest hsplit
      split at h
      · rename_i off len hoff hlen
        split_ifs at h with hrange
        cases h
        exact ⟨name, pos1, pos2, rest, hsplit, hoff, hlen, by omega, by omega⟩
      · cases h
    · cases h
  · intro h
    have hlong := h.length_uri
    obtain ⟨name, off, len, rest, hsplit, hoff, hlen, hpos, hmax⟩ := h
    refine ⟨name, ?_⟩
    have hrange : ¬ (length > CONST_SMALL_FILE_SIZE ∨ offset < 0) := by omega
    simp only [parseSmallFile, hlong, if_false, hsplit, hoff, hlen, hrange]

theorem AsksPiece.range {uri : Str} {offset length : Int} (h : AsksPiece uri offset length) :
    0 ≤ offset ∧ offset < 2 ^ 63 ∧ -2 ^ 63 ≤ length ∧ length ≤ CONST_SMALL_FILE_SIZE := by
  obtain ⟨_, _, _, _, _, hoff, hlen, hpos, hmax⟩ := h
  exact ⟨hpos, (parseInt_range hoff).2, (parseInt_range hlen).1, hmax⟩

theorem AsksPiece.bmod_eq_iff {uri : Str} {offset length : Int} (h : AsksPiece uri offset length) :
    Int.bmod (offset + length) (2 ^ 64) = offset + length ↔ offset + length < 2 ^ 63 := by
  obtain ⟨h1, h2, h3, h4⟩ := h.range
  rw [CONST_SMALL_FILE_SIZE] at h4
  constructor
  · intro heq
    have := Int.bmod_lt (x := offset + length) (m := 2 ^ 64) (by decide)
    omega
  · intro hlt
    exact Int.bmod_eq_of_le (by omega) (by omega)

end

/-! ## The read -/

section
variable {c} {Img : Type} {I : Images Img}

/-- A piece of positive length that is read is not empty, and one too long is refused. -/
theorem downloadSmallFileByURI_ne_panic {d : Disk} {r : Request}
    (h : ∀ name offset length n, parseSmallFile r.requestURI = some (name, offset, length) →
      d.stat (getFilePathFromRequest c r).1 = some n → ¬ n.size < Int.bmod (offset + length) (2 ^ 64) → 0 < length) :
    downloadSmallFileByURI c I d r ≠ .panic := by
  have hread : getSmallFileByURI c d r ≠ .panic ∧ getSmallFileByURI c d r ≠ .data [] := by
    unfold getSmallFileByURI
    dsimp only
    cases hparse : parseSmallFile r.requestURI with
    | none => simp
    | some t =>
      obtain ⟨name, offset, length⟩ := t
      cases hstat : d.stat (getFilePathFromRequest c r).1 with
      | none => simp
      | some n =>
        by_cases hlong : n.size < Int.bmod (offset + length) (2 ^ 64)
        · simp only [hlong, if_true]; simp
        have hpos : 0 < length := h name offset length n hparse hstat hlong
        simp only [hlong, if_false, show ¬ length < 0 by omega]
        cases n with
        | dir => simp only [show ¬ length = 0 by omega, if_false]; simp
        | file data t =>
          dsimp only
          cases hslice : Disk.slice data offset.toNat length.toNat with
          | none => simp
          | some b =>
            have hb : b ≠ [] := by
              intro heq
              subst heq
              have hlen := ((Disk.slice_eq_some (by omega)).mp hslice).1
              simp only [List.length_nil] at hlen
              omega
            simpa using hb
  unfold downloadSmallFileByURI
  cases hcase : getSmallFileByURI c d r with
  | none b => simp
  | panic => exact absurd hcase hread.1
  | data b =>
    cases b with
    | nil => exact absurd hcase hread.2
    | cons x bytes => dsimp only; split_ifs <;> simp

/-- The handler stays in range exactly if, where its address asks for a piece of what is at
    the path, the offset and the length add up to an int64, and the length is positive
    unless the piece is too long anyway. -/
theorem inBounds_iff (I : Images Img) (d : Disk) (r : Request) :
    InBounds c I d r ↔
      ∀ offset length n, AsksPiece r.requestURI offset length → d.stat (getFilePathFromRequest c r).1 = some n →
        offset + length < 2 ^ 63 ∧ (n.size < offset + length ∨ 0 < length) := by
  constructor
  · intro h offset length n hasks hstat
    obtain ⟨name, hparse⟩ := parseSmallFile_isSome_iff.mpr hasks
    have hsum := h.sum name offset length n hparse hstat
    refine ⟨hasks.bmod_eq_iff.mp hsum, ?_⟩
    by_cases hlong : n.size < offset + length
    · exact Or.inl hlong
    · exact Or.inr (h.length name offset length n hparse hstat (by rw [hsum]; exact hlong)).1
  · intro h
    have hsum : ∀ name offset length n, parseSmallFile r.requestURI = some (name, offset, length) →
        d.stat (getFilePathFromRequest c r).1 = some n → Int.bmod (offset + length) (2 ^ 64) = offset + length := by
      intro name offset length n hparse hstat
      have hasks := parseSmallFile_isSome_iff.mp ⟨name, hparse⟩
      exact hasks.bmod_eq_iff.mpr (h offset length n hasks hstat).1
    have hlength : ∀ name offset length n, parseSmallFile r.requestURI = some (name, offset, length) →
        d.stat (getFilePathFromRequest c r).1 = some n → ¬ n.size < Int.bmod (offset + length) (2 ^ 64) → 0 < length := by
      intro name offset length n hparse hstat hlong
      rw [hsum name offset length n hparse hstat] at hlong
      exact (h offset length n (parseSmallFile_isSome_iff.mp ⟨name, hparse⟩) hstat).2.resolve_left hlong
    refine ⟨hsum, ?_, downloadSmallFileByURI_ne_panic hlength⟩
    intro name offset length n hparse hstat hlong
    exact ⟨hlength name offset length n hparse hstat hlong, (parseSmallFile_isSome_iff.mp ⟨name, hparse⟩).range.2.2.2⟩

end

/-- An address that asks for no byte of a pack: the byte looked at is not there. -/
theorem a_piece_of_no_length_panics :
    ¬ InBounds Config.sample Images.none (Disk.ofFiles [("files/haystack/p1/150".toList, "1hello".toList)])
      { requestURI := "/haystack/p1/150,0,0,.txt".toList } := by
  intro h
  exact h.index (by decide +kernel)

end GoFastdfs
