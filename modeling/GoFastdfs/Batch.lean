/-
  GoFastdfs.Batch — the existence check of many digests against that of one
  (`CheckFilesExist` and `CheckFileExist` of `http_info.go`).

  Both look a digest up in `ldb`, and both take the record of a normal file away that is
  gone from the disk. The check of one takes it away under its digest; the check of many
  looks for it under the whole text it was asked with, which is no digest of the list as
  soon as the list has two. A record with an empty digest is an answer of the check of
  many, and of the check of one it cannot be told from the empty record.

  Proved: what either check answers and leaves behind, digest by digest
  (`checkFilesExistLoop_spec`, `checkEach_spec`), and that for every database, disk and list
  the two agree exactly if no record is to be taken away or the list has one digest, and
  every record found names its digest (`batch_agrees_iff`).
-/

import GoFastdfs.Metadata
import GoFastdfs.Sync

namespace GoFastdfs

open Go (Str)

variable (E : Env) (c : Config)

namespace Server

/-- Calls of `CheckFileExist`, one for each digest and none with a path: what they answer,
    and the server after them. -/
def checkEach : Server → List Str → List FileInfo × Server
  | s, [] => ([], s)
  | s, m :: ms =>
    let r := s.checkFileExist E c m []
    let r' := checkEach r.2 ms
    (r.1 :: r'.1, r'.2)

def present (s : Server) (fi : FileInfo) : Bool := fi.offSet ≠ -1 || s.disk.fileExists (getFilePathByInfo c fi)

def existing (s : Server) (m : Str) : Option FileInfo := (s.getFileInfoFromLevelDB m).filter (s.present c)

def stale (s : Server) (m : Str) : Bool := (s.getFileInfoFromLevelDB m).any fun fi => !s.present c fi

/-- The check of many answers as the checks of one do, empty records left out, and leaves
    the same `ldb`. -/
structure BatchAgrees (s : Server) (ms : List Str) : Prop where
  answers : (s.checkFilesExist c ([','].intercalate ms)).1 = (s.checkEach E c ms).1.filter (·.md5 ≠ [])
  ldb : ∀ k, (s.checkFilesExist c ([','].intercalate ms)).2.ldb.get k = (s.checkEach E c ms).2.ldb.get k

/-- No record that is found lacks a digest, and none is to be taken away unless the list is
    that one digest. The text of the empty list asks for the empty digest. -/
structure Checkable (s : Server) (ms : List Str) : Prop where
  digests : ∀ m ∈ ms, ∀ fi, s.existing c m = some fi → fi.md5 ≠ []
  fresh : ms.length = 1 ∨ ∀ m ∈ ms, s.stale c m = false
  nothing : ms = [] → s.getFileInfoFromLevelDB [] = none

section
variable {E c}

/-! ## One digest -/

theorem getFileInfo_removeKey (s : Server) (m k : Str) :
    (s.removeKeyFromLevelDB m .ldb).getFileInfoFromLevelDB k = if k = m then none else s.getFileInfoFromLevelDB k := by
  unfold getFileInfoFromLevelDB removeKeyFromLevelDB
  dsimp only
  rw [Store.get_del]
  split_ifs <;> rfl

/-- Either nothing is known of the digest, or its file is there, or its record is stale. -/
theorem lookup_cases (s : Server) (m : Str) :
    (s.getFileInfoFromLevelDB m = none ∧ s.existing c m = none ∧ s.stale c m = false) ∨
    (∃ fi, s.getFileInfoFromLevelDB m = some fi ∧ s.present c fi = true ∧ s.existing c m = some fi ∧ s.stale c m = false) ∨
    ∃ fi, s.getFileInfoFromLevelDB m = some fi ∧ s.present c fi = false ∧ s.existing c m = none ∧ s.stale c m = true := by
  unfold existing stale
  cases h : s.getFileInfoFromLevelDB m with
  | none => exact Or.inl ⟨rfl, rfl, rfl⟩
  | some fi =>
    cases hp : s.present c fi with
    | true => exact Or.inr (Or.inl ⟨fi, rfl, hp, by simp [hp], by simp [hp]⟩)
    | false => exact Or.inr (Or.inr ⟨fi, rfl, hp, by simp [hp], by simp [hp]⟩)

theorem present_iff {s : Server} {fi : FileInfo} :
    s.present c fi = true ↔ fi.offSet ≠ -1 ∨ s.disk.fileExists (getFilePathByInfo c fi) = true := by
  simp [present]

/-- What `CheckFileExist` does with a digest alone. -/
theorem checkFileExist_spec (s : Server) (m : Str) :
    s.checkFileExist E c m [] =
      ((s.existing c m).getD {}, if s.stale c m then s.removeKeyFromLevelDB m .ldb else s) := by
  unfold checkFileExist
  rcases lookup_cases (c := c) s m with ⟨hget, hex, hst⟩ | ⟨fi, hget, hp, hex, hst⟩ | ⟨fi, hget, hp, hex, hst⟩
  · rw [hget, hex, hst]
    rfl
  · rw [hget, hex, hst]
    dsimp only
    rcases present_iff.mp hp with hoff | hfile
    · rw [if_pos hoff]
      rfl
    · rw [if_pos hfile, ite_self]
      rfl
  · rw [hget, hex, hst]
    obtain ⟨hoff, hfile⟩ := not_or.mp (mt present_iff.mpr (ne_true_of_eq_false hp))
    dsimp only
    rw [if_neg hoff, if_neg hfile]
    rfl

theorem existing_removeKey {s : Server} {m : Str} (h : s.stale c m = true) (k : Str) :
    (s.removeKeyFromLevelDB m .ldb).existing c k = s.existing c k := by
  rcases lookup_cases (c := c) s m with ⟨_, _, hst⟩ | ⟨_, _, _, _, hst⟩ | ⟨_, _, _, hex, _⟩
  · rw [h] at hst
    cases hst
  · rw [h] at hst
    cases hst
  · by_cases hk : k = m
    · rw [hk, hex, existing, getFileInfo_removeKey, if_pos rfl]
      rfl
    · rw [existing, existing, getFileInfo_removeKey, if_neg hk]
      rfl

theorem stale_removeKey (s : Server) (m k : Str) :
    (s.removeKeyFromLevelDB m .ldb).stale c k = (k ≠ m && s.stale c k) := by
  unfold stale
  rw [getFileInfo_removeKey]
  by_cases hk : k = m
  · simp [hk]
  · simp [hk]
    rfl

/-! ## The list -/

theorem checkEach_spec (ms : List Str) (s : Server) :
    (s.checkEach E c ms).1.filter (·.md5 ≠ []) = (ms.filterMap (s.existing c)).filter (·.md5 ≠ []) ∧
      ∀ k, (s.checkEach E c ms).2.ldb.get k = if k ∈ ms ∧ s.stale c k = true then none else s.ldb.get k := by
  induction ms generalizing s with
  | nil => exact ⟨rfl, fun k => by simp [checkEach]⟩
  | cons m ms ih =>
    simp only [checkEach, checkFileExist_spec]
    cases hst : s.stale c m with
    | false =>
      obtain ⟨hanswers, hldb⟩ := ih s
      constructor
      · cases hex : s.existing c m with
        | none => simpa [hex] using hanswers
        | some fi =>
          simp only [Option.getD_some, List.filterMap_cons, hex, List.filter_cons, Bool.false_eq_true, if_false, hanswers]
      · intro k
        simp only [Bool.false_eq_true, if_false, hldb k, List.mem_cons]
        by_cases hk : k = m
        · simp [hk, hst]
        · simp [hk]
    | true =>
      obtain ⟨hanswers, hldb⟩ := ih (s.removeKeyFromLevelDB m .ldb)
      have hex : s.existing c m = none := by
        rcases lookup_cases (c := c) s m with ⟨_, _, h⟩ | ⟨_, _, _, _, h⟩ | ⟨_, _, _, hex, _⟩
        · rw [h] at hst
          cases hst
        · rw [h] at hst
          cases hst
        · exact hex
      have hsame : (s.removeKeyFromLevelDB m .ldb).existing c = s.existing c := funext (existing_removeKey hst)
      constructor
      · rw [hsame] at hanswers
        simpa [hex] using hanswers
      · intro k
        have hdel : (s.removeKeyFromLevelDB m .ldb).ldb.get k = if k = m then none else s.ldb.get k := Store.get_del _ _ _
        rw [if_pos rfl, hldb k, stale_removeKey, hdel]
        by_cases hk : k = m
        · simp [hk, hst]
        · simp [hk]

theorem existing_other {s : Server} {md5sum m : Str} (h : m ≠ md5sum) :
    (s.removeKeyFromLevelDB md5sum .ldb).existing c m = s.existing c m ∧
      (s.removeKeyFromLevelDB md5sum .ldb).stale c m = s.stale c m := by
  constructor
  · rw [existing, existing, getFileInfo_removeKey, if_neg h]
    rfl
  · simp [stale_removeKey, h]

theorem checkFilesExistLoop_spec {md5sum : Str} (ms : List Str) (hnot : ∀ m ∈ ms, m ≠ md5sum) (s : Server) :
    (s.checkFilesExistLoop c md5sum ms).1 = ms.filterMap (s.existing c) ∧
      ∀ k, (s.checkFilesExistLoop c md5sum ms).2.ldb.get k =
        if ms.any (s.stale c) = true ∧ k = md5sum then none else s.ldb.get k := by
  induction ms generalizing s with
  | nil => exact ⟨rfl, fun k => by simp [checkFilesExistLoop]⟩
  | cons m ms ih =>
    have hrest : ∀ x ∈ ms, x ≠ md5sum := fun x hx => hnot x (List.mem_cons_of_mem m hx)
    unfold checkFilesExistLoop
    rcases lookup_cases (c := c) s m with ⟨hget, hex, hst⟩ | ⟨fi, hget, hp, hex, hst⟩ | ⟨fi, hget, hp, hex, hst⟩
    · obtain ⟨hanswers, hldb⟩ := ih hrest s
      rw [hget]
      exact ⟨by simpa [hex] using hanswers, fun k => by simpa [hst] using hldb k⟩
    · obtain ⟨hanswers, hldb⟩ := ih hrest s
      rw [hget]
      dsimp only
      rw [if_pos (present_iff.mp hp)]
      exact ⟨by simpa [hex] using hanswers, fun k => by simpa [hst] using hldb k⟩
    · obtain ⟨hanswers, hldb⟩ := ih hrest (s.removeKeyFromLevelDB md5sum .ldb)
      have hsame : ∀ x ∈ ms, (s.removeKeyFromLevelDB md5sum .ldb).existing c x = s.existing c x := fun x hx =>
        (existing_other (hrest x hx)).1
      rw [hget]
      dsimp only
      rw [if_neg (mt present_iff.mpr (ne_true_of_eq_false hp))]
      refine ⟨?_, fun k => ?_⟩
      · rw [hanswers, List.filterMap_congr hsame, List.filterMap_cons, hex]
      · have hdel : (s.removeKeyFromLevelDB md5sum .ldb).ldb.get k = if k = md5sum then none else s.ldb.get k :=
          Store.get_del _ _ _
        rw [hldb k, hdel, List.any_cons, hst, Bool.true_or]
        by_cases hk : k = md5sum
        · simp [hk]
        · simp [hk]

/-! ## Agreement -/

theorem checkFilesExistLoop_one (s : Server) (m : Str) :
    s.checkFilesExistLoop c m [m] =
      ((s.existing c m).toList, if s.stale c m then s.removeKeyFromLevelDB m .ldb else s) := by
  unfold checkFilesExistLoop
  rcases lookup_cases (c := c) s m with ⟨hget, hex, hst⟩ | ⟨fi, hget, hp, hex, hst⟩ | ⟨fi, hget, hp, hex, hst⟩
  · rw [hget, hex, hst]
    rfl
  · rw [hget, hex, hst]
    dsimp only
    rw [if_pos (present_iff.mp hp)]
    rfl
  · rw [hget, hex, hst]
    dsimp only
    rw [if_neg (mt present_iff.mpr (ne_true_of_eq_false hp))]
    rfl

theorem toList_filter_iff (fi : Option FileInfo) :
    fi.toList = [fi.getD {}].filter (·.md5 ≠ []) ↔ ∀ v, fi = some v → v.md5 ≠ [] := by
  cases fi with
  | none => simp
  | some v => by_cases hv : v.md5 = [] <;> simp [hv]

theorem batch_agrees_one {s : Server} {m : Str} (hcomma : ',' ∉ m) :
    s.BatchAgrees E c [m] ↔ ∀ fi, s.existing c m = some fi → fi.md5 ≠ [] := by
  have hbatch : s.checkFilesExist c ([','].intercalate [m]) =
      ((s.existing c m).toList, if s.stale c m then s.removeKeyFromLevelDB m .ldb else s) := by
    rw [checkFilesExist, List.splitOn_intercalate _ (by simpa using hcomma) (by simp)]
    simpa using checkFilesExistLoop_one s m
  have heach : s.checkEach E c [m] =
      ([(s.existing c m).getD {}], if s.stale c m then s.removeKeyFromLevelDB m .ldb else s) := by
    simp only [checkEach, checkFileExist_spec]
  rw [← toList_filter_iff]
  constructor
  · intro h
    have hanswers := h.answers
    rwa [hbatch, heach] at hanswers
  · intro h
    constructor
    · rwa [hbatch, heach]
    · intro k
      rw [hbatch, heach]

theorem batch_agrees_nil {s : Server} : s.BatchAgrees E c [] ↔ s.getFileInfoFromLevelDB [] = none := by
  have hbatch : s.checkFilesExist c ([','].intercalate []) =
      ((s.existing c []).toList, if s.stale c [] then s.removeKeyFromLevelDB [] .ldb else s) := checkFilesExistLoop_one s []
  constructor
  · intro h
    have hanswers := h.answers
    have hldb := h.ldb []
    rw [hbatch] at hanswers hldb
    rcases lookup_cases (c := c) s [] with ⟨hget, _, _⟩ | ⟨fi, hget, hp, hex, hst⟩ | ⟨fi, hget, hp, hex, hst⟩
    · exact hget
    · rw [hex] at hanswers
      cases hanswers
    · have hthere : s.ldb.get [] = some (.record fi) := getFileInfo_eq_some.mp hget
      have hgone : (s.removeKeyFromLevelDB [] .ldb).ldb.get [] = none := Store.get_del_self _ _
      rw [hst, if_pos rfl, hgone] at hldb
      rw [checkEach, hthere] at hldb
      cases hldb
  · intro h
    have hex : s.existing c [] = none := by rw [existing, h]; rfl
    have hst : s.stale c [] = false := by rw [stale, h]; rfl
    constructor
    · rw [hbatch, hex]
      rfl
    · intro k
      rw [hbatch, hst]
      rfl

theorem ne_intercalate {ms : List Str} (hcomma : ∀ m ∈ ms, ',' ∉ m) (hlen : 2 ≤ ms.length) :
    ∀ m ∈ ms, m ≠ [','].intercalate ms := by
  intro m hm h
  have hsplit : ([','].intercalate ms).splitOn ',' = ms := List.splitOn_intercalate _ hcomma (by rintro rfl; simp at hlen)
  have hone : m.splitOn ',' = [m] := by
    have hm' : (([','] : Str).intercalate [m]).splitOn ',' = [m] :=
      List.splitOn_intercalate _ (by simpa using hcomma m hm) (by simp)
    simpa using hm'
  rw [← h, hone] at hsplit
  rw [← hsplit] at hlen
  simp at hlen

/-- Two digests or more: what is to be taken away stays. -/
theorem batch_agrees_many {s : Server} {ms : List Str} (hcomma : ∀ m ∈ ms, ',' ∉ m) (hlen : 2 ≤ ms.length) :
    s.BatchAgrees E c ms ↔
      (∀ m ∈ ms, ∀ fi, s.existing c m = some fi → fi.md5 ≠ []) ∧ ∀ m ∈ ms, s.stale c m = false := by
  have hne : ms ≠ [] := by rintro rfl; simp at hlen
  obtain ⟨hbatch, hbatchLdb⟩ := checkFilesExistLoop_spec (c := c) ms (ne_intercalate hcomma hlen) s
  obtain ⟨heach, heachLdb⟩ := checkEach_spec (E := E) (c := c) ms s
  have hanswers : (s.checkFilesExist c ([','].intercalate ms)).1 = (s.checkEach E c ms).1.filter (·.md5 ≠ []) ↔
      ∀ m ∈ ms, ∀ fi, s.existing c m = some fi → fi.md5 ≠ [] := by
    rw [heach, checkFilesExist, List.splitOn_intercalate _ hcomma hne, hbatch, eq_comm, List.filter_eq_self]
    simp only [List.mem_filterMap, decide_eq_true_eq]
    constructor
    · exact fun h m hm fi hfi => h fi ⟨m, hm, hfi⟩
    · intro h fi hp
      obtain ⟨m, hm, hfi⟩ := hp
      exact h m hm fi hfi
  have hldb : (∀ k, (s.checkFilesExist c ([','].intercalate ms)).2.ldb.get k = (s.checkEach E c ms).2.ldb.get k) ↔
      ∀ m ∈ ms, s.stale c m = false := by
    simp only [checkFilesExist, List.splitOn_intercalate _ hcomma hne, hbatchLdb, heachLdb]
    constructor
    · intro h m hm
      rcases lookup_cases (c := c) s m with ⟨_, _, hst⟩ | ⟨_, _, _, _, hst⟩ | ⟨fi, hget, _, _, hst⟩
      · exact hst
      · exact hst
      · have hk := h m
        rw [if_neg fun hx => ne_intercalate hcomma hlen m hm hx.2, if_pos ⟨hm, hst⟩, getFileInfo_eq_some.mp hget] at hk
        cases hk
    · intro h k
      rw [if_neg, if_neg]
      · intro hp
        obtain ⟨hk, hst⟩ := hp
        rw [h k hk] at hst
        cases hst
      · intro hp
        obtain ⟨hany, _⟩ := hp
        obtain ⟨m, hm, hst⟩ := List.any_eq_true.mp hany
        rw [h m hm] at hst
        cases hst
  exact ⟨fun h => ⟨hanswers.mp h.answers, hldb.mp h.ldb⟩, fun h => ⟨hanswers.mpr h.1, hldb.mpr h.2⟩⟩

/-- The check of many is the checks of one exactly for such lists. -/
theorem batch_agrees_iff {s : Server} {ms : List Str} (hcomma : ∀ m ∈ ms, ',' ∉ m) :
    s.BatchAgrees E c ms ↔ s.Checkable c ms := by
  rcases ms with _ | ⟨m, _ | ⟨m', ms⟩⟩
  · rw [batch_agrees_nil]
    constructor
    · exact fun h => ⟨by simp, Or.inr (by simp), fun _ => h⟩
    · exact fun h => h.nothing rfl
  · rw [batch_agrees_one (hcomma m (by simp))]
    constructor
    · exact fun h => ⟨by simpa using h, Or.inl rfl, by simp⟩
    · exact fun h => h.digests m (by simp)
  · have hlen : 2 ≤ (m :: m' :: ms).length := by simp
    rw [batch_agrees_many hcomma hlen]
    constructor
    · intro hp
      obtain ⟨hdigests, hfresh⟩ := hp
      exact ⟨hdigests, Or.inr hfresh, by simp⟩
    · intro h
      exact ⟨h.digests, h.fresh.resolve_left (by simp)⟩

end

/-! ## Fixed inputs -/

def twoRecords : Server :=
  let first : FileInfo := { name := "a".toList, path := "files".toList, md5 := "m1".toList, offSet := -1 }
  let second : FileInfo := { name := "b".toList, path := "files".toList, md5 := "m2".toList, offSet := -1 }
  { ldb := ((∅ : Store Str Value).put "m1".toList (.record first)).put "m2".toList (.record second)
    disk := Disk.ofFiles [("files/b".toList, "x".toList)] }

/-- Asked for together, the record of the file that is gone is kept. -/
theorem a_batch_keeps_a_stale_record : ¬ twoRecords.BatchAgrees Env.plain {} ["m1".toList, "m2".toList] := by
  intro h
  have hldb := h.ldb "m1".toList
  revert hldb
  decide +kernel

/-- Asked for alone it goes. -/
theorem a_single_digest_agrees : twoRecords.BatchAgrees Env.plain {} ["m1".toList] :=
  (batch_agrees_iff (by decide)).mpr ⟨by decide +kernel, Or.inl rfl, by simp⟩

end Server

end GoFastdfs
