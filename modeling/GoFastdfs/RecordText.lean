/-
  GoFastdfs.RecordText — the databases that hold records as texts.

  A node whose databases hold the JSON texts of `RecordJson` is set beside `Server`, whose
  databases hold records.

  Proved: while the digests of the records that are written are valid UTF-8, the node with texts
  and the node with records answer alike, after any run (`texts_refine_records`). The record of a
  file leads to the file exactly if its path and its name are valid too
  (`recorded_file_is_found_iff`).
-/

import GoFastdfs.Metadata

namespace GoFastdfs

open Go (Str)

variable (E : Env) (skip : Str → Option Str)

/-! ## Databases of texts -/

/-- A node by the texts that its databases hold. -/
structure TextNode where
  ldb : Store Str Str := ∅
  logDB : Store Str Str := ∅
  statMap : Store Str Int := ∅

namespace TextNode

def isExistFromLevelDB (p : TextNode) (key : Str) : Bool := p.ldb.has key

def getFileInfoFromLevelDB (p : TextNode) (key : Str) : Option FileInfo := (p.ldb.get key).bind (FileInfo.decode skip)

def removeKeyFromLevelDB (p : TextNode) (key : Str) : DB → TextNode
  | .ldb => { p with ldb := p.ldb.del key }
  | .logDB => { p with logDB := p.logDB.del key }

def saveFileInfoToLevelDB (p : TextNode) (key : Str) (isNil : Bool) (fi : FileInfo) : DB → TextNode
  | .ldb => { p with ldb := p.ldb.put key (fi.encode isNil), logDB := p.logDB.put (fileKey E fi) (fi.encode isNil) }
  | .logDB => { p with logDB := p.logDB.put key (fi.encode isNil) }

def addCount (p : TextNode) (key : Str) (n : Int) : TextNode :=
  { p with statMap := p.statMap.put key ((p.statMap.get key).getD 0 + n) }

def saveFileMd5Log (p : TextNode) (isNil : Bool) (fi : FileInfo) (filename : Str) : TextNode :=
  if fi.md5 = [] ∨ filename = [] then p else
  let logDate := E.day fi.timeStamp
  let key := logKey logDate filename fi.md5
  if filename = CONST_FILE_Md5_FILE_NAME then
    let p := if p.isExistFromLevelDB fi.md5 then p
      else (p.addCount (Server.countKey logDate) 1).addCount (Server.totalSizeKey logDate) fi.size
    let p := p.saveFileInfoToLevelDB E key isNil fi .logDB
    let p := p.saveFileInfoToLevelDB E fi.md5 isNil fi .ldb
    p.saveFileInfoToLevelDB E (E.md5 fi.fullpath) isNil fi .ldb
  else if filename = CONST_REMOME_Md5_FILE_NAME then
    let p := if p.isExistFromLevelDB fi.md5 then
        (p.addCount (Server.countKey logDate) (-1)).addCount (Server.totalSizeKey logDate) (-fi.size)
      else p
    let p := p.removeKeyFromLevelDB key .logDB
    let p := p.removeKeyFromLevelDB fi.md5 .ldb
    let p := p.removeKeyFromLevelDB (E.md5 fi.fullpath) .ldb
    p.removeKeyFromLevelDB (logKey logDate CONST_FILE_Md5_FILE_NAME fi.md5) .logDB
  else p.saveFileInfoToLevelDB E key isNil fi .logDB

def getMd5sByDate (p : TextNode) (date filename : Str) : List Str :=
  (p.logDB.scan (Go.hasPrefix · (keyPrefix date filename))).filterMap fun x => (x.1.splitOn '_')[2]?

/-- A text that is no record is passed over. -/
def loadFileInfoByDate (p : TextNode) (date filename : Str) : List FileInfo :=
  (p.logDB.scan (Go.hasPrefix · (keyPrefix date filename))).filterMap fun x => FileInfo.decode skip x.2

/-- The texts are taken for the keys. -/
def cleanLogLevelDBByDate (p : TextNode) (date filename : Str) : TextNode :=
  (p.logDB.scan (Go.hasPrefix · (keyPrefix date filename))).foldl (fun p x => p.removeKeyFromLevelDB x.2 .logDB) p

end TextNode

inductive LogOp where
  | saveFileMd5Log (isNil : Bool) (fi : FileInfo) (filename : Str)
  | saveFileInfo (key : Str) (isNil : Bool) (fi : FileInfo)
  | removeKey (key : Str) (db : DB)
  | cleanLog (date filename : Str)
  /-- The entry without a text that is there while a file is downloaded. -/
  | downloading (key : Str)

namespace LogOp

def runTexts (p : TextNode) : LogOp → TextNode
  | .saveFileMd5Log isNil fi filename => p.saveFileMd5Log E isNil fi filename
  | .saveFileInfo key isNil fi => p.saveFileInfoToLevelDB E key isNil fi .ldb
  | .removeKey key db => p.removeKeyFromLevelDB key db
  | .cleanLog date filename => p.cleanLogLevelDBByDate date filename
  | .downloading key => { p with ldb := p.ldb.put key [] }

def runRecords (s : Server) : LogOp → Server
  | .saveFileMd5Log _ fi filename => s.saveFileMd5Log E fi filename
  | .saveFileInfo key _ fi => s.saveFileInfoToLevelDB E key fi .ldb
  | .removeKey key db => s.removeKeyFromLevelDB key db
  | .cleanLog date filename => s.cleanLogLevelDBByDate .plain date filename
  | .downloading key => { s with ldb := s.ldb.put key .empty }

/-- The records that are written have numbers of 64 bits and digests in UTF-8. -/
def Plain : LogOp → Prop
  | .saveFileMd5Log _ fi _ => fi.Int64 ∧ Go.valid fi.md5 = true
  | .saveFileInfo _ _ fi => fi.Int64 ∧ Go.valid fi.md5 = true
  | _ => True

end LogOp

def ValueText (text : Str) : Value → Prop
  | .record fi => FileInfo.decode skip text = some fi
  | .empty => FileInfo.decode skip text = none

def RowText (text : Str) (fi : FileInfo) : Prop := FileInfo.decode skip text = some fi ∧ text.head? = some '\x7b'

/-- The texts of `p` are the records of `s`, and no key of a log looks like a text. -/
structure Spells (p : TextNode) (s : Server) : Prop where
  ldb : Store.Rel (ValueText skip) p.ldb s.ldb
  logDB : Store.Rel (RowText skip) p.logDB s.logDB
  keys : ∀ k, (s.logDB.get k).isSome = true → k.head? ≠ some '\x7b'
  statMap : p.statMap = s.statMap

section
variable {E skip} {p : TextNode} {s : Server}

theorem decode_nil : FileInfo.decode skip [] = none := rfl

theorem valueText_encode (isNil : Bool) {fi : FileInfo} (h : fi.Int64 ∧ Go.valid fi.md5 = true) :
    ValueText skip (fi.encode isNil) (.record fi.persist) := decode_persist isNil h.1 h.2

theorem rowText_encode (isNil : Bool) {fi : FileInfo} (h : fi.Int64 ∧ Go.valid fi.md5 = true) :
    RowText skip (fi.encode isNil) fi.persist := ⟨decode_persist isNil h.1 h.2, rfl⟩

theorem logKey_head (t : Int) (filename md5 : Str) : (logKey (E.day t) filename md5).head? ≠ some '\x7b' := by
  intro h
  have hbrace := Server.brace_notMem_day E t
  unfold logKey at h
  cases hday : E.day t with
  | nil =>
    rw [hday] at h
    cases h
  | cons c d =>
    rw [hday] at h hbrace
    obtain rfl : c = '\x7b' := Option.some.inj h
    exact hbrace List.mem_cons_self

namespace Spells

theorem addCount (h : Spells skip p s) (key : Str) (n : Int) : Spells skip (p.addCount key n) (s.addCount key n) := by
  refine ⟨h.ldb, h.logDB, h.keys, ?_⟩
  rw [TextNode.addCount, Server.addCount, h.statMap]

theorem removeKey (h : Spells skip p s) (key : Str) (db : DB) :
    Spells skip (p.removeKeyFromLevelDB key db) (s.removeKeyFromLevelDB key db) := by
  cases db with
  | ldb => exact ⟨h.ldb.del key, h.logDB, h.keys, h.statMap⟩
  | logDB =>
    refine ⟨h.ldb, h.logDB.del key, fun k hk => h.keys k ?_, h.statMap⟩
    obtain ⟨v, hv⟩ := Option.isSome_iff_exists.mp hk
    rw [(Store.get_del_some hv).2]
    rfl

theorem keys_put (h : Spells skip p s) {key : Str} (hkey : key.head? ≠ some '\x7b') (v : FileInfo) (k : Str)
    (hk : ((s.logDB.put key v).get k).isSome = true) : k.head? ≠ some '\x7b' := by
  rw [Store.get_put] at hk
  split_ifs at hk with heq
  · rw [heq]
    exact hkey
  · exact h.keys k hk

theorem saveRow (h : Spells skip p s) {key : Str} (hkey : key.head? ≠ some '\x7b') (isNil : Bool) {fi : FileInfo}
    (hfi : fi.Int64 ∧ Go.valid fi.md5 = true) :
    Spells skip (p.saveFileInfoToLevelDB E key isNil fi .logDB) (s.saveFileInfoToLevelDB E key fi .logDB) :=
  ⟨h.ldb, h.logDB.put key (rowText_encode isNil hfi), h.keys_put hkey _, h.statMap⟩

theorem saveRecord (h : Spells skip p s) (key : Str) (isNil : Bool) {fi : FileInfo} (hfi : fi.Int64 ∧ Go.valid fi.md5 = true) :
    Spells skip (p.saveFileInfoToLevelDB E key isNil fi .ldb) (s.saveFileInfoToLevelDB E key fi .ldb) :=
  ⟨h.ldb.put key (valueText_encode isNil hfi), h.logDB.put _ (rowText_encode isNil hfi), h.keys_put (logKey_head _ _ _) _,
    h.statMap⟩

theorem isExist (h : Spells skip p s) (key : Str) : p.isExistFromLevelDB key = s.isExistFromLevelDB key := h.ldb.has key

theorem saveFileMd5Log (h : Spells skip p s) (isNil : Bool) {fi : FileInfo} (hfi : fi.Int64 ∧ Go.valid fi.md5 = true)
    (filename : Str) :
    Spells skip (p.saveFileMd5Log E isNil fi filename) (s.saveFileMd5Log E fi filename) := by
  have hcount : ∀ n m : Int, Spells skip
      ((p.addCount (Server.countKey (E.day fi.timeStamp)) n).addCount (Server.totalSizeKey (E.day fi.timeStamp)) m)
      ((s.addCount (Server.countKey (E.day fi.timeStamp)) n).addCount (Server.totalSizeKey (E.day fi.timeStamp)) m) :=
    fun n m => (h.addCount _ n).addCount _ m
  unfold TextNode.saveFileMd5Log Server.saveFileMd5Log
  rw [h.isExist]
  dsimp only
  split_ifs
  · exact h
  · exact ((h.saveRow (logKey_head _ _ _) isNil hfi).saveRecord _ isNil hfi).saveRecord _ isNil hfi
  · exact (((hcount _ _).saveRow (logKey_head _ _ _) isNil hfi).saveRecord _ isNil hfi).saveRecord _ isNil hfi
  · exact ((((hcount _ _).removeKey _ .logDB).removeKey _ .ldb).removeKey _ .ldb).removeKey _ .logDB
  · exact (((h.removeKey _ .logDB).removeKey _ .ldb).removeKey _ .ldb).removeKey _ .logDB
  · exact h.saveRow (logKey_head _ _ _) isNil hfi

theorem removeTexts (h : Spells skip p s) {text text' : Str} (ht : text.head? = some '\x7b') (ht' : text'.head? = some '\x7b') :
    Spells skip (p.removeKeyFromLevelDB text .logDB) (s.removeKeyFromLevelDB text' .logDB) := by
  have hdel : ∀ {β : Type} (d : Store Str β) {text : Str}, text.head? = some '\x7b' →
      (∀ k, (d.get k).isSome = true → k.head? ≠ some '\x7b') → ∀ k, (d.del text).get k = d.get k := by
    intro β d text htext hkeys k
    rw [Store.get_del]
    split_ifs with hk
    · cases hv : d.get k with
      | none => rfl
      | some v => exact absurd (hk ▸ htext) (hkeys k (by rw [hv]; rfl))
    · rfl
  have hp := hdel p.logDB ht fun k hk => h.keys k (h.logDB.isSome k ▸ hk)
  have hs := hdel s.logDB ht' h.keys
  refine ⟨h.ldb, fun k => ?_, fun k hk => h.keys k ?_, h.statMap⟩
  · have hk := h.logDB k
    rwa [← hp k, ← hs k] at hk
  · rwa [← hs k]

theorem cleanLog (h : Spells skip p s) (date filename : Str) :
    Spells skip (p.cleanLogLevelDBByDate date filename) (s.cleanLogLevelDBByDate .plain date filename) := by
  have hrows := h.logDB.scan (Go.hasPrefix · (keyPrefix date filename))
  unfold TextNode.cleanLogLevelDBByDate Server.cleanLogLevelDBByDate
  generalize p.logDB.scan _ = l at hrows ⊢
  generalize s.logDB.scan _ = m at hrows ⊢
  induction hrows generalizing p s with
  | nil => exact h
  | cons hxy _ ih => exact ih (h.removeTexts hxy.2.2 rfl)

theorem run (h : Spells skip p s) {op : LogOp} (hop : op.Plain) : Spells skip (op.runTexts E p) (op.runRecords E s) := by
  cases op with
  | saveFileMd5Log isNil fi filename => exact h.saveFileMd5Log isNil hop filename
  | saveFileInfo key isNil fi => exact h.saveRecord key isNil hop
  | removeKey key db => exact h.removeKey key db
  | cleanLog date filename => exact h.cleanLog date filename
  | downloading key => exact ⟨h.ldb.put key decode_nil, h.logDB, h.keys, h.statMap⟩

theorem runs {ops : List LogOp} (h : Spells skip p s) (hops : ∀ op ∈ ops, op.Plain) :
    Spells skip (ops.foldl (LogOp.runTexts E) p) (ops.foldl (LogOp.runRecords E) s) := by
  induction ops generalizing p s with
  | nil => exact h
  | cons op ops ih =>
    obtain ⟨hop, hops⟩ := List.forall_mem_cons.mp hops
    exact ih (h.run hop) hops

theorem getFileInfo (h : Spells skip p s) (key : Str) :
    p.getFileInfoFromLevelDB skip key = s.getFileInfoFromLevelDB key := by
  have hkey := h.ldb key
  unfold TextNode.getFileInfoFromLevelDB Server.getFileInfoFromLevelDB
  generalize p.ldb.get key = a at hkey ⊢
  generalize s.ldb.get key = b at hkey ⊢
  cases hkey with
  | none => rfl
  | @some text v hv =>
    cases v with
    | record fi => exact hv
    | empty => exact hv

theorem loadFileInfo (h : Spells skip p s) (date filename : Str) :
    p.loadFileInfoByDate skip date filename = s.loadFileInfoByDate date filename := by
  have hrows := h.logDB.scan (Go.hasPrefix · (keyPrefix date filename))
  unfold TextNode.loadFileInfoByDate Server.loadFileInfoByDate
  generalize p.logDB.scan _ = l at hrows ⊢
  generalize s.logDB.scan _ = m at hrows ⊢
  induction hrows with
  | nil => rfl
  | @cons x y l m hxy _ ih =>
    have hx : FileInfo.decode skip x.2 = some y.2 := hxy.2.1
    rw [List.filterMap_cons, hx, List.map_cons, ← ih]

theorem getMd5s (h : Spells skip p s) (date filename : Str) :
    p.getMd5sByDate date filename = s.getMd5sByDate date filename := by
  have hrows := h.logDB.scan (Go.hasPrefix · (keyPrefix date filename))
  unfold TextNode.getMd5sByDate Server.getMd5sByDate
  generalize p.logDB.scan _ = l at hrows ⊢
  generalize s.logDB.scan _ = m at hrows ⊢
  induction hrows with
  | nil => rfl
  | cons hxy _ ih => rw [List.filterMap_cons, List.filterMap_cons, hxy.1, ih]

end Spells

theorem spells_fresh (d : Disk) : Spells skip {} (Server.fresh d) :=
  ⟨Store.rel_empty, Store.rel_empty, fun k hk => absurd hk (by simp [Server.fresh]), rfl⟩

end

/-- After any run of writes of valid records the node that holds texts and the node that holds
    records answer alike: by key, by presence, and by day. -/
theorem texts_refine_records {ops : List LogOp} (hops : ∀ op ∈ ops, op.Plain) (d : Disk) :
    let p := ops.foldl (LogOp.runTexts E) {}
    let s := ops.foldl (LogOp.runRecords E) (Server.fresh d)
    (∀ key, p.getFileInfoFromLevelDB skip key = s.getFileInfoFromLevelDB key) ∧
      (∀ key, p.isExistFromLevelDB key = s.isExistFromLevelDB key) ∧
      (∀ date filename, p.loadFileInfoByDate skip date filename = s.loadFileInfoByDate date filename) ∧
      (∀ date filename, p.getMd5sByDate date filename = s.getMd5sByDate date filename) ∧ p.statMap = s.statMap := by
  have h : Spells skip (ops.foldl (LogOp.runTexts E) {}) (ops.foldl (LogOp.runRecords E) (Server.fresh d)) :=
    (spells_fresh d).runs hops
  exact ⟨h.getFileInfo, h.isExist, h.loadFileInfo, h.getMd5s, h.statMap⟩

/-! ## A file whose name is not UTF-8 -/

section
variable {E skip}

theorem saveFileMd5Log_get (p : TextNode) (isNil : Bool) {fi : FileInfo} (hint : fi.Int64) (hmd5 : fi.md5 ≠ []) {key : Str}
    (hkey : key = fi.md5 ∨ key = E.md5 fi.fullpath) :
    (p.saveFileMd5Log E isNil fi CONST_FILE_Md5_FILE_NAME).getFileInfoFromLevelDB skip key =
      some { fi.persist with md5 := Go.repair fi.md5 } := by
  have hldb : (p.saveFileMd5Log E isNil fi CONST_FILE_Md5_FILE_NAME).ldb =
      (p.ldb.put fi.md5 (fi.encode isNil)).put (E.md5 fi.fullpath) (fi.encode isNil) := by
    unfold TextNode.saveFileMd5Log
    rw [if_neg (by simp [hmd5, Server.logNames_ne.2.1]), if_pos rfl]
    dsimp only
    split_ifs <;> rfl
  have hget : (p.saveFileMd5Log E isNil fi CONST_FILE_Md5_FILE_NAME).ldb.get key = some (fi.encode isNil) := by
    rw [hldb, Store.get_put, Store.get_put]
    rcases hkey with rfl | rfl
    · rw [if_pos rfl, ite_self]
    · rw [if_pos rfl]
  rw [TextNode.getFileInfoFromLevelDB, hget, Option.bind_some, decode_encode isNil hint]

end

/-- The record of a file that was just logged leads to the file, under either of its keys, exactly
    if the path and the name are valid UTF-8. -/
theorem recorded_file_is_found_iff (c : Config) (p : TextNode) (isNil : Bool) {fi : FileInfo} (hint : fi.Int64)
    (hmd5 : fi.md5 ≠ [])
    {key : Str} (hkey : key = fi.md5 ∨ key = E.md5 fi.fullpath) :
    ((p.saveFileMd5Log E isNil fi CONST_FILE_Md5_FILE_NAME).getFileInfoFromLevelDB skip key).map (getFilePathByInfo c) =
        some (getFilePathByInfo c fi) ↔ Go.valid fi.path = true ∧ Go.valid fi.outname = true := by
  have hpath : getFilePathByInfo c { fi.persist with md5 := Go.repair fi.md5 } = c.dockerDir ++ fi.persist.fullpath := rfl
  rw [saveFileMd5Log_get p isNil hint hmd5 hkey, Option.map_some, Option.some_inj, hpath, getFilePathByInfo,
    List.append_right_inj, FileInfo.persist_fullpath_iff, FileInfo.Legible]

/-! ## Fixed inputs -/

theorem a_latin_file_is_lost :
    ¬ ((TextNode.saveFileMd5Log Env.plain {} false latinRecord CONST_FILE_Md5_FILE_NAME).getFileInfoFromLevelDB
      (fun _ => none) latinRecord.md5).map (getFilePathByInfo {}) = some (getFilePathByInfo {} latinRecord) := fun h =>
  absurd ((recorded_file_is_found_iff Env.plain (fun _ => none) {} {} false latinRecord_int64 (by decide) (Or.inl rfl)).mp h).2
    (by decide)

def plainOps : List LogOp :=
  [.saveFileMd5Log false latinRecord CONST_FILE_Md5_FILE_NAME,
    .saveFileMd5Log true { latinRecord with md5 := "a1".toList, name := "a.txt".toList } CONST_FILE_Md5_FILE_NAME,
    .saveFileMd5Log true { latinRecord with md5 := "a1".toList, name := "a.txt".toList } CONST_REMOME_Md5_FILE_NAME]

theorem plainOps_plain : ∀ op ∈ plainOps, op.Plain := by
  have hlatin : latinRecord.Int64 ∧ Go.valid latinRecord.md5 = true := ⟨latinRecord_int64, by decide⟩
  have hplain : ({ latinRecord with md5 := "a1".toList, name := "a.txt".toList } : FileInfo).Int64 ∧
      Go.valid "a1".toList = true := ⟨⟨by decide, by decide, by decide⟩, by decide⟩
  simp only [plainOps, List.forall_mem_cons]
  exact ⟨hlatin, hplain, hplain, fun op hop => absurd hop List.not_mem_nil⟩

theorem a_text_is_read_as_the_record :
    let p := plainOps.foldl (LogOp.runTexts Env.plain) {}
    p.getFileInfoFromLevelDB (fun _ => none) latinRecord.md5 = some latinRecord.persist ∧
      p.getFileInfoFromLevelDB (fun _ => none) "a1".toList = none := by
  have h := (texts_refine_records Env.plain (fun _ => none) plainOps_plain { cwd := [], nodes := ∅ }).1
  exact ⟨(h latinRecord.md5).trans (by decide +kernel), (h "a1".toList).trans (by decide +kernel)⟩

end GoFastdfs
