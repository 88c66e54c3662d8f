/-
  GoFastdfs.RecordJson — records as JSON text.

  `json.Marshal` and `json.Unmarshal` of a record are written out over `Jsoniter`. Strings are
  byte strings; what the slice `Peers` is when it is empty, nil or not, is given with each write.

  Proved: a record is read back as it was written exactly if its strings are valid UTF-8
  (`record_reads_back_iff`); if its digest is, it is read back as `persist` has it
  (`decode_persist`): each stray byte of a name, a path or a scene comes back as U+FFFD.
-/

import GoFastdfs.Go.Unicode
import GoFastdfs.Jsoniter
import GoFastdfs.Server

namespace GoFastdfs

open Go (Str)
open Jsoniter (readString readStrings readInt writeStrings)

variable (skip : Str → Option Str)

/-! ## The text of a record -/

namespace FileInfo

/-- The fields of a record in their order; unexported fields have none. -/
def fields (isNil : Bool) (fi : FileInfo) : List (Jsoniter.Field FileInfo) :=
  [⟨"name".toList, Jsoniter.writeString fi.name, fun v => { v with name := Go.repair fi.name }⟩,
    ⟨"rename".toList, Jsoniter.writeString fi.reName, fun v => { v with reName := Go.repair fi.reName }⟩,
    ⟨"path".toList, Jsoniter.writeString fi.path, fun v => { v with path := Go.repair fi.path }⟩,
    ⟨"md5".toList, Jsoniter.writeString fi.md5, fun v => { v with md5 := Go.repair fi.md5 }⟩,
    ⟨"size".toList, Go.itoa fi.size, fun v => { v with size := fi.size }⟩,
    ⟨"peers".toList, writeStrings isNil fi.peers, fun v => { v with peers := fi.peers.map Go.repair }⟩,
    ⟨"scene".toList, Jsoniter.writeString fi.scene, fun v => { v with scene := Go.repair fi.scene }⟩,
    ⟨"timeStamp".toList, Go.itoa fi.timeStamp, fun v => { v with timeStamp := fi.timeStamp }⟩,
    ⟨"offset".toList, Go.itoa fi.offSet, fun v => { v with offSet := fi.offSet }⟩]

def encode (isNil : Bool) (fi : FileInfo) : Str := Jsoniter.writeStruct (fi.fields isNil)

def readText (set : FileInfo → Str → FileInfo) (v : FileInfo) (s : Str) : Option (FileInfo × Str) :=
  (readString s).map fun (x, s) => (set v x, s)

def readNumber (get : FileInfo → Int) (set : FileInfo → Int → FileInfo) (v : FileInfo) (s : Str) : Option (FileInfo × Str) :=
  (readInt (get v) s).map fun (i, s) => (set v i, s)

def readTimeStamp : FileInfo → Str → Option (FileInfo × Str) := readNumber (·.timeStamp) fun v i => { v with timeStamp := i }

/-- The decoders of `decoderOfStruct`: one more for a name that is not in lower case. -/
def decoders : List (Str × (FileInfo → Str → Option (FileInfo × Str))) :=
  [("name".toList, readText fun v x => { v with name := x }),
    ("rename".toList, readText fun v x => { v with reName := x }),
    ("path".toList, readText fun v x => { v with path := x }),
    ("md5".toList, readText fun v x => { v with md5 := x }),
    ("size".toList, readNumber (·.size) fun v i => { v with size := i }),
    ("peers".toList, fun v s => (readStrings s).map fun (l, s) => ({ v with peers := l }, s)),
    ("scene".toList, readText fun v x => { v with scene := x }),
    ("timeStamp".toList, readTimeStamp),
    ("offset".toList, readNumber (·.offSet) fun v i => { v with offSet := i }),
    ("timestamp".toList, readTimeStamp)]

def decoder (name : Str) : Option (FileInfo → Str → Option (FileInfo × Str)) :=
  (decoders.lookup name).or (decoders.lookup (Go.toLower name))

def decode (data : Str) : Option FileInfo := Jsoniter.unmarshal decoder skip {} data

structure Int64 (fi : FileInfo) : Prop where
  size : -2 ^ 63 ≤ fi.size ∧ fi.size < 2 ^ 63
  timeStamp : -2 ^ 63 ≤ fi.timeStamp ∧ fi.timeStamp < 2 ^ 63
  offSet : -2 ^ 63 ≤ fi.offSet ∧ fi.offSet < 2 ^ 63

structure Utf8 (fi : FileInfo) : Prop where
  name : Go.valid fi.name = true
  reName : Go.valid fi.reName = true
  path : Go.valid fi.path = true
  md5 : Go.valid fi.md5 = true
  peers : ∀ p ∈ fi.peers, Go.valid p = true
  scene : Go.valid fi.scene = true

end FileInfo

section
variable {skip}

theorem reads_text {f : Jsoniter.Field FileInfo} {set : FileInfo → Str → FileInfo} {x : Str}
    (hname : ∀ t, readString ('"' :: f.name ++ '"' :: t) = some (f.name, t))
    (hdecoder : FileInfo.decoders.lookup f.name = some (FileInfo.readText set)) (htext : f.text = Jsoniter.writeString x)
    (hset : ∀ v, f.set v = set v (Go.repair x)) : f.Reads (FileInfo.decoder) := by
  refine ⟨hname, _, by rw [FileInfo.decoder, hdecoder, Option.some_or], fun v t _ => ?_⟩
  rw [htext, FileInfo.readText, Jsoniter.readString_write, Option.map_some, hset]

theorem reads_number {f : Jsoniter.Field FileInfo} {get : FileInfo → Int} {set : FileInfo → Int → FileInfo} {i : Int}
    (hname : ∀ t, readString ('"' :: f.name ++ '"' :: t) = some (f.name, t))
    (hdecoder : FileInfo.decoders.lookup f.name = some (FileInfo.readNumber get set)) (htext : f.text = Go.itoa i)
    (hset : ∀ v, f.set v = set v i) (hi : -2 ^ 63 ≤ i ∧ i < 2 ^ 63) : f.Reads (FileInfo.decoder) := by
  refine ⟨hname, _, by rw [FileInfo.decoder, hdecoder, Option.some_or], fun v t ht => ?_⟩
  rw [htext, FileInfo.readNumber, Jsoniter.readInt_itoa hi.1 hi.2 _ ht.number, Option.map_some, hset]

/-- What a record written is read back as. -/
theorem decode_encode (isNil : Bool) {fi : FileInfo} (h : fi.Int64) :
    FileInfo.decode skip (fi.encode isNil) = some { fi.persist with md5 := Go.repair fi.md5 } := by
  have hall : ∀ f ∈ fi.fields isNil, f.Reads (FileInfo.decoder) := by
    simp only [FileInfo.fields, List.forall_mem_cons]
    refine ⟨?_, ?_, ?_, ?_, ?_, ?_, ?_, ?_, ?_, fun f hf => absurd hf List.not_mem_nil⟩
    · exact reads_text (fun _ => rfl) rfl rfl fun _ => rfl
    · exact reads_text (fun _ => rfl) rfl rfl fun _ => rfl
    · exact reads_text (fun _ => rfl) rfl rfl fun _ => rfl
    · exact reads_text (fun _ => rfl) rfl rfl fun _ => rfl
    · exact reads_number (fun _ => rfl) rfl rfl (fun _ => rfl) h.size
    · refine ⟨fun _ => rfl, _, rfl, fun v t _ => ?_⟩
      rw [Jsoniter.readStrings_write, Option.map_some]
    · exact reads_text (fun _ => rfl) rfl rfl fun _ => rfl
    · exact reads_number (fun _ => rfl) rfl rfl (fun _ => rfl) h.timeStamp
    · exact reads_number (fun _ => rfl) rfl rfl (fun _ => rfl) h.offSet
  have hne : fi.fields isNil ≠ [] := List.cons_ne_nil _ _
  rw [FileInfo.decode, FileInfo.encode, Jsoniter.unmarshal_write hne hall]
  rfl

theorem decode_persist (isNil : Bool) {fi : FileInfo} (h : fi.Int64) (hmd5 : Go.valid fi.md5 = true) :
    FileInfo.decode skip (fi.encode isNil) = some fi.persist := by
  rw [decode_encode isNil h, (Go.repair_eq_iff _).mpr hmd5]
  rfl

theorem map_repair_iff : ∀ l : List Str, l.map Go.repair = l ↔ ∀ p ∈ l, Go.valid p = true
  | [] => by simp
  | p :: l => by rw [List.map_cons, List.cons_eq_cons, Go.repair_eq_iff, map_repair_iff l, List.forall_mem_cons]

/-- A record is read back as it was written exactly if its strings are valid UTF-8. -/
theorem record_reads_back_iff (isNil : Bool) {fi : FileInfo} (h : fi.Int64) :
    FileInfo.decode skip (fi.encode isNil) = some { fi with retry := 0, op := [] } ↔ fi.Utf8 := by
  rw [decode_encode isNil h, Option.some_inj]
  simp only [FileInfo.persist, FileInfo.mk.injEq, and_true, true_and, Go.repair_eq_iff, map_repair_iff]
  constructor
  · intro hp
    obtain ⟨h1, h2, h3, h4, h5, h6⟩ := hp
    exact ⟨h1, h2, h3, h4, h5, h6⟩
  · intro h
    exact ⟨h.name, h.reName, h.path, h.md5, h.peers, h.scene⟩

end

def latinRecord : FileInfo :=
  { name := "caf\xe9.txt".toList, path := "files/default".toList, md5 := "5d41402abc4b2a76".toList, size := 5 }

theorem latinRecord_int64 : latinRecord.Int64 := ⟨by decide, by decide, by decide⟩

theorem a_latin_name_is_changed :
    ¬ FileInfo.decode (fun _ => none) (latinRecord.encode false) = some { latinRecord with retry := 0, op := [] } := fun h =>
  absurd ((@record_reads_back_iff (fun _ => none) false _ latinRecord_int64).mp h).name (by decide)

/-! ## Rows of a log -/

/-- The texts in which the rows of a log are stored: each was written by `json.Marshal`, for a
    record that is read back as the row's. -/
structure RowTexts where
  text : Str → FileInfo → Str
  written : ∀ key v, ∃ (isNil : Bool) (fi : FileInfo), fi.persist = v.persist ∧ text key v = fi.encode isNil

/-- Each row written as it is read, its list of peers not nil. -/
def RowTexts.plain : RowTexts := ⟨fun _ v => v.encode false, fun _ v => ⟨false, v, rfl, rfl⟩⟩

theorem RowTexts.head (x : RowTexts) (key : Str) (v : FileInfo) : (x.text key v).head? = some '\x7b' := by
  obtain ⟨isNil, fi, -, h⟩ := x.written key v
  rw [h]
  rfl

theorem encode_printable (isNil : Bool) (fi : FileInfo) : ∀ c ∈ fi.encode isNil, ¬ c < ' ' := by
  refine Jsoniter.writeStruct_printable ?_
  simp only [FileInfo.fields, List.forall_mem_cons]
  have hstring := Jsoniter.writeString_printable
  have hint := Jsoniter.itoa_printable
  refine ⟨⟨?_, hstring _⟩, ⟨?_, hstring _⟩, ⟨?_, hstring _⟩, ⟨?_, hstring _⟩, ⟨?_, hint _⟩,
    ⟨?_, Jsoniter.writeStrings_printable isNil _⟩, ⟨?_, hstring _⟩, ⟨?_, hint _⟩, ⟨?_, hint _⟩,
    fun f hf => absurd hf List.not_mem_nil⟩
  all_goals exact Jsoniter.printable_of_all rfl

theorem RowTexts.printable (x : RowTexts) (key : Str) (v : FileInfo) : ∀ c ∈ x.text key v, ¬ c < ' ' := by
  obtain ⟨isNil, fi, -, h⟩ := x.written key v
  rw [h]
  exact encode_printable isNil fi

end GoFastdfs
