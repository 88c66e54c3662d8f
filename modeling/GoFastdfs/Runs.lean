/-
  GoFastdfs.Runs — uploads, deletions and the log consumer of one node, over time
  (`upload`, `RemoveFile` of `http_remove.go`, `ConsumerLog`, `postFileToPeer`).

  Deleting takes the file away at once and leaves its record to an entry of the log
  queue. A run is a server together with what was recorded, answered and deleted so far.
  `kept` are the normal files recorded and not deleted since. Every step keeps `RunInv`:
  a kept file has the bytes it was uploaded with, and its record is found under its
  digest, as long as the digests of the contents do not meet each other or the digest of
  another content's path (`Apart`).

  Proved: without deletions every upload that was answered with an address can be read at
  the path of its record (`acknowledged_uploads_stay`), and with them every upload of a
  deleted content stays once its digest has left the queue (`reuploads_stay`). A taken
  name that was asked for makes a record of another's file, which a repeated upload then
  deletes (`a_repeated_upload_deletes_another_file`); an upload before the queue is empty
  relies on a record that is about to go (`a_queued_delete_takes_the_next_upload`).
-/

import GoFastdfs.Upload

namespace GoFastdfs

open Go (Str)

variable (E : Env) (c : Config)

/-! ## Deleting -/

/-- `md5sum` of `RemoveFile`: the digest given, or the digest of the path given. -/
def removeKey (r : Request) : Str :=
  let md5sum := r.formValue "md5".toList
  let fpath := r.formValue "path".toList
  if fpath ≠ [] ∧ md5sum = [] then
    if c.group ≠ [] ∧ c.supportGroupManage = true then
      E.md5 (Go.replaceFirst ('/' :: (c.group ++ ['/'])) (STORE_DIR_NAME ++ ['/']) fpath)
    else E.md5 (Go.replaceFirst ['/'] (STORE_DIR_NAME ++ ['/']) fpath)
  else md5sum

inductive RemoveEnd where
  | notPeer
  | notPermitted
  | failed (message : Str)
  /-- `remove success`. -/
  | removed (fi : FileInfo)
  deriving DecidableEq, Repr

/-- What the surroundings decide of a deletion: the answers of `IsPeer` and `CheckAuth`, and
    the text of an error of the database or the operating system. -/
structure RemoveDraw where
  isPeer : Bool := true
  auth : Bool := true
  error : Str := []

namespace Server

/-- `RemoveFile` where `os.Remove` does what `remove` says: the answer, the peers the request
    is passed on to, and the server. -/
def removeFileOn (remove : Disk → Str → Option Disk) (s : Server) (r : Request) (w : RemoveDraw) :
    RemoveEnd × List Str × Server :=
  if w.isPeer = false then (.notPeer, [], s)
  else if c.authUrl ≠ [] ∧ w.auth = false then (.notPermitted, [], s)
  else
    let peers := if r.formValue "inner".toList ≠ "1".toList then c.peers else []
    if (removeKey E c r).length < 32 then (.failed "md5 unvalid".toList, peers, s) else
    match s.getFileInfoFromLevelDB (removeKey E c r) with
    | none => (.failed w.error, peers, s)
    | some fi =>
      if 0 ≤ fi.offSet then (.failed "small file delete not support".toList, peers, s)
      else if fi.path ≠ [] ∧ s.disk.fileExists (getFilePathByInfo c fi) = true then
        match remove s.disk (getFilePathByInfo c fi) with
        | none => (.failed w.error, peers, s.logLater fi CONST_REMOME_Md5_FILE_NAME)
        | some d => (.removed fi, peers, { s with disk := d }.logLater fi CONST_REMOME_Md5_FILE_NAME)
      else (.failed "fail remove".toList, peers, s)

/-- `RemoveFile`, where nothing but the disk's own rules keeps `os.Remove` from a file. -/
def removeFile (s : Server) (r : Request) (w : RemoveDraw) : RemoveEnd × List Str × Server :=
  s.removeFileOn E c Disk.remove r w

def consumerLog (s : Server) : Server :=
  match s.queueFileLog with
  | [] => s
  | e :: rest => { s with queueFileLog := rest }.saveFileMd5Log E e.fileInfo e.fileName

theorem consumerLog_disk (s : Server) : (s.consumerLog E).disk = s.disk := by
  unfold consumerLog
  split
  · rfl
  · exact saveFileMd5Log_disk E _ _ _

theorem mem_of_mem_consumerLog {s : Server} {q : FileLog} (h : q ∈ (s.consumerLog E).queueFileLog) : q ∈ s.queueFileLog := by
  unfold consumerLog at h
  split at h
  · exact h
  · rename_i e rest hcons
    rw [saveFileMd5Log_queue] at h
    rw [hcons]
    exact List.mem_cons_of_mem e h

end Server

/-! ## Runs -/

inductive Event where
  /-- An upload saved this record for these bytes. -/
  | recorded (fi : FileInfo) (data : Str)
  /-- An upload of these bytes was answered with the address of this record. -/
  | answered (fi : FileInfo) (data : Str)
  /-- A deletion of this record was answered with `remove success`. -/
  | removed (fi : FileInfo)
  deriving DecidableEq, Repr

/-- A server and what happened so far, the latest first. -/
structure Run where
  server : Server
  events : List Event := []

namespace Event

def stored : List Event → List (FileInfo × Str)
  | [] => []
  | recorded fi x :: l => (fi, x) :: stored l
  | answered _ _ :: l => stored l
  | removed _ :: l => stored l

def kept : List Event → List (FileInfo × Str)
  | [] => []
  | recorded fi x :: l => if fi.offSet < 0 then (fi, x) :: kept l else kept l
  | answered _ _ :: l => kept l
  | removed fi :: l => (kept l).filter (·.1.md5 ≠ fi.md5)

def acked : List Event → List (FileInfo × Str)
  | [] => []
  | answered fi x :: l => (fi, x) :: acked l
  | recorded _ _ :: l => acked l
  | removed fi :: l => (acked l).filter (·.1.md5 ≠ fi.md5)

theorem mem_stored {l : List Event} {fi : FileInfo} {x : Str} : (fi, x) ∈ stored l ↔ recorded fi x ∈ l := by
  induction l with
  | nil => simp [stored]
  | cons e l ih => cases e <;> simp [stored, ih]

theorem mem_kept {l : List Event} {e : FileInfo × Str} (h : e ∈ kept l) : e ∈ stored l ∧ e.1.offSet < 0 := by
  induction l with
  | nil => cases h
  | cons a l ih =>
    cases a with
    | recorded fi x =>
      simp only [kept] at h
      split at h
      · rename_i ho
        rcases List.mem_cons.mp h with rfl | h
        · exact ⟨List.mem_cons_self, ho⟩
        · exact ⟨List.mem_cons_of_mem _ (ih h).1, (ih h).2⟩
      · exact ⟨List.mem_cons_of_mem _ (ih h).1, (ih h).2⟩
    | answered fi x => exact ih h
    | removed fi => exact ih (List.mem_filter.mp h).1

theorem mem_kept_recorded {l : List Event} {fi : FileInfo} {x : Str} {e : FileInfo × Str} :
    e ∈ kept (recorded fi x :: l) ↔ e = (fi, x) ∧ fi.offSet < 0 ∨ e ∈ kept l := by
  simp only [kept]
  split
  · rename_i h
    rw [List.mem_cons]
    exact or_congr_left (iff_self_and.mpr fun _ => h)
  · rename_i h
    exact ⟨Or.inr, fun he => he.resolve_left fun hn => h hn.2⟩

theorem mem_kept_removed {l : List Event} {fi : FileInfo} {e : FileInfo × Str} :
    e ∈ kept (removed fi :: l) ↔ e ∈ kept l ∧ e.1.md5 ≠ fi.md5 := by
  simp only [kept, List.mem_filter, decide_eq_true_eq]

theorem mem_acked {pre : List Event} {fi : FileInfo} {x : Str} : ∀ {post : List Event},
    (∀ v, removed v ∈ post → v.md5 ≠ fi.md5) → (fi, x) ∈ acked (post ++ answered fi x :: pre)
  | [], _ => List.mem_cons_self
  | e :: post, h => by
    have ih : (fi, x) ∈ acked (post ++ answered fi x :: pre) := mem_acked fun v hv => h v (List.mem_cons_of_mem e hv)
    cases e with
    | recorded v y => exact ih
    | answered v y => exact List.mem_cons_of_mem _ ih
    | removed v =>
      refine List.mem_filter.mpr ⟨ih, ?_⟩
      have := h v List.mem_cons_self
      simpa using Ne.symm this

/-- No content sent has the digest of another content, or of another content's path. -/
def Apart (E : Env) (c : Config) (l : List Event) : Prop :=
  ∀ v x, recorded v x ∈ l ∨ answered v x ∈ l → ∀ fi y, recorded fi y ∈ l → y ≠ x →
    fileSum E c x ≠ fileSum E c y ∧ fileSum E c x ≠ E.md5 fi.fullpath

theorem Apart.mono {E : Env} {c : Config} {l l' : List Event} (h : Apart E c l') (hsub : ∀ e ∈ l, e ∈ l') : Apart E c l :=
  fun v x hx fi y hy => h v x (hx.imp (hsub _) (hsub _)) fi y (hsub _ hy)

def content : Event → Option Str
  | recorded _ x | answered _ x => some x
  | removed _ => none

theorem apart_iff {E : Env} {c : Config} {l : List Event} : Apart E c l ↔ ∀ x ∈ l.filterMap content, ∀ e ∈ stored l,
    e.2 ≠ x → fileSum E c x ≠ fileSum E c e.2 ∧ fileSum E c x ≠ E.md5 e.1.fullpath := by
  constructor
  · intro h x hx e he hne
    obtain ⟨a, ha, hax⟩ := List.mem_filterMap.mp hx
    have hrec := mem_stored.mp he
    cases a with
    | recorded v y =>
      obtain rfl := Option.some.inj hax
      exact h v y (Or.inl ha) e.1 e.2 hrec hne
    | answered v y =>
      obtain rfl := Option.some.inj hax
      exact h v y (Or.inr ha) e.1 e.2 hrec hne
    | removed v => cases hax
  · intro h v x hx fi y hy hne
    refine h x (List.mem_filterMap.mpr ?_) (fi, y) (mem_stored.mpr hy) hne
    rcases hx with hx | hx
    · exact ⟨_, hx, rfl⟩
    · exact ⟨_, hx, rfl⟩

instance (E : Env) (c : Config) (l : List Event) : Decidable (Apart E c l) := decidable_of_iff _ apart_iff.symm

end Event

open Event (stored kept acked Apart)

def UploadEnd.events (e : UploadEnd) (data : Str) : List Event :=
  (e.answered.map (Event.answered · data)).toList ++ (e.recorded.map (Event.recorded · data)).toList

def UploadRequest.data (r : UploadRequest) : Str :=
  match r.file with
  | .ok f => f.2
  | .error _ => []

def RemoveEnd.events : RemoveEnd → List Event
  | .removed fi => [.removed fi]
  | _ => []

namespace Run

def upload (p : Run) (r : UploadRequest) (w : UploadDraw) : Run :=
  let u := p.server.upload E c r w
  ⟨u.2, u.1.events r.data ++ p.events⟩

def remove (p : Run) (r : Request) (w : RemoveDraw) : Run :=
  let u := p.server.removeFile E c r w
  ⟨u.2.2, u.1.events ++ p.events⟩

def consumerLog (p : Run) : Run := { p with server := p.server.consumerLog E }

def post (p : Run) (fi : FileInfo) (answer : Nat → PeerAnswer) : Run :=
  { p with server := (p.server.postFileToPeer E c fi answer).1 }

end Run

/-! ## The invariant -/

/-- Two records of one file; a merged one has no path of its own. -/
structure SameRecord (v w : FileInfo) : Prop where
  md5 : v.md5 = w.md5
  offSet : v.offSet = w.offSet
  fullpath : v.offSet < 0 → v.fullpath = w.fullpath

theorem SameRecord.path {v w : FileInfo} (h : SameRecord v w) (ho : v.offSet < 0) :
    getFilePathByInfo c v = getFilePathByInfo c w := by
  rw [getFilePathByInfo, h.fullpath ho, getFilePathByInfo]

theorem SameRecord.refl (v : FileInfo) : SameRecord v v := ⟨rfl, rfl, fun _ => rfl⟩

theorem SameRecord.trans {u v w : FileInfo} (h : SameRecord u v) (h' : SameRecord v w) : SameRecord u w :=
  ⟨h.md5.trans h'.md5, h.offSet.trans h'.offSet, fun ho => (h.fullpath ho).trans (h'.fullpath (h.offSet ▸ ho))⟩

theorem SameRecord.symm {v w : FileInfo} (h : SameRecord v w) : SameRecord w v :=
  ⟨h.md5.symm, h.offSet.symm, fun ho => (h.fullpath (h.offSet ▸ ho)).symm⟩

theorem sameRecord_persist {v : FileInfo} (h : v.offSet < 0 → v.Legible) : SameRecord v.persist v :=
  ⟨rfl, rfl, fun ho => (h ho).fullpath⟩

/-- A deletion of this digest is in the log queue. -/
def Pending (s : Server) (md5 : Str) : Prop :=
  ∃ q ∈ s.queueFileLog, q.fileName = CONST_REMOME_Md5_FILE_NAME ∧ q.fileInfo.md5 = md5

structure RunInv (p : Run) : Prop where
  digest : ∀ e ∈ stored p.events, e.1.md5 = fileSum E c e.2 ∧ e.1.md5 ≠ []
  normal : ∀ e ∈ stored p.events, e.1.offSet < 0 ↔ merges c e.2.length = false
  legible : ∀ e ∈ stored p.events, e.1.offSet < 0 → e.1.Legible
  files : ∀ e ∈ kept p.events, p.server.disk.read (getFilePathByInfo c e.1) = some e.2
  records : ∀ e ∈ kept p.events, ∃ v, p.server.ldb.get e.1.md5 = some (.record v) ∧ SameRecord v e.1
  known : ∀ k v, p.server.ldb.get k = some (.record v) →
    ∃ e ∈ stored p.events, SameRecord v e.1 ∧ (k = v.md5 ∨ k = E.md5 e.1.fullpath)
  /-- A record under its own digest is that of a file kept, or is about to go. -/
  live : ∀ v, p.server.ldb.get v.md5 = some (.record v) → v.offSet < 0 →
    (∃ e ∈ kept p.events, SameRecord v e.1) ∨ Pending p.server v.md5
  queue : ∀ q ∈ p.server.queueFileLog, q.fileName = CONST_REMOME_Md5_FILE_NAME ∧ q.fileInfo.offSet < 0 ∧
      (∃ e ∈ stored p.events, SameRecord q.fileInfo e.1) ∧ (∀ e ∈ kept p.events, e.1.md5 ≠ q.fileInfo.md5) ∨
    q.fileName = CONST_Md5_ERROR_FILE_NAME
  answers : ∀ v x, Event.answered v x ∈ p.events → ∃ e ∈ stored p.events, e.2 = x ∧ SameRecord v e.1
  acked : ∀ a ∈ acked p.events, a.1.offSet < 0 → ∃ e ∈ kept p.events, e.2 = a.2 ∧ SameRecord a.1 e.1
  removals : ∀ v, Event.removed v ∈ p.events → ∃ e ∈ stored p.events, e.1.offSet < 0 ∧ SameRecord v e.1

section
variable {E c}

theorem runInv_start (d : Disk) : RunInv E c ⟨Server.fresh d, []⟩ where
  digest := by intro e he; cases he
  normal := by intro e he; cases he
  legible := by intro e he; cases he
  files := by intro e he; cases he
  records := by intro e he; cases he
  known := by intro k v h; cases h
  live := by intro v h; cases h
  queue := by intro q hq; cases hq
  answers := by intro v x h; cases h
  acked := by intro a ha; cases ha
  removals := by intro v h; cases h

theorem errorName_ne : CONST_Md5_ERROR_FILE_NAME ≠ CONST_FILE_Md5_FILE_NAME ∧
    CONST_Md5_ERROR_FILE_NAME ≠ CONST_REMOME_Md5_FILE_NAME := by
  constructor <;> decide

theorem content_eq {l : List Event} (hapart : Apart E c l) {v w : FileInfo} {x y : Str}
    (hx : Event.recorded v x ∈ l ∨ Event.answered v x ∈ l) (hy : Event.recorded w y ∈ l)
    (h : fileSum E c x = fileSum E c y ∨ fileSum E c x = E.md5 w.fullpath) : y = x := by
  by_contra hne
  obtain ⟨h1, h2⟩ := hapart v x hx w y hy hne
  exact h.elim h1 h2

/-! ### An upload -/

/-- An upload whose content is known is answered with the record of the same content. -/
theorem known_upload {p : Run} (hinv : RunInv E c p) {data : Str} {v : FileInfo}
    (hv : p.server.getFileInfoFromLevelDB (fileSum E c data) = some v)
    (hapart : Apart E c (.answered v data :: p.events)) :
    ∃ e ∈ stored p.events, e.2 = data ∧ SameRecord v e.1 ∧ v.md5 = fileSum E c data := by
  obtain ⟨e, he, hsame, hkey⟩ := hinv.known _ v (Server.getFileInfo_eq_some.mp hv)
  have hd := (hinv.digest e he).1
  have hrec : Event.recorded e.1 e.2 ∈ Event.answered v data :: p.events :=
    List.mem_cons_of_mem _ (Event.mem_stored.mp he)
  have hdata : e.2 = data := by
    refine content_eq hapart (Or.inr List.mem_cons_self) hrec ?_
    rcases hkey with hkey | hkey
    · exact Or.inl (by rw [hkey, hsame.md5, hd])
    · exact Or.inr hkey
  exact ⟨e, he, hdata, hsame, by rw [hsame.md5, hd, hdata]⟩

/-- What is asked of an upload. -/
structure GoodUpload (E : Env) (c : Config) (p : Run) (r : UploadRequest) (w : UploadDraw) : Prop where
  plain : ∀ header data fi, uploadForm E c r w.stamp = .ok (header, data, fi) → PlainUpload E c p.server header data fi w
  settled : ∀ header data, r.file = .ok (header, data) → ¬ Pending p.server (fileSum E c data)
  packs : ∀ e ∈ kept p.events, PackApart E c p.server r w (getFilePathByInfo c e.1)

/-- A record is that of a normal file exactly if its upload was not merged. -/
theorem UploadRecord.offSet_iff {w : UploadDraw} {data : Str} {d : Disk} {fi : FileInfo} (h : UploadRecord E c w data d fi) :
    fi.offSet < 0 ↔ merges c data.length = false := by
  cases hm : merges c data.length with
  | true =>
    have := h.merged hm
    constructor
    · intro ho; omega
    · intro hf; cases hf
  | false =>
    have := (h.normal hm).1
    exact ⟨fun _ => rfl, fun _ => by omega⟩

theorem kept_apart {p : Run} (hinv : RunInv E c p) {fi : FileInfo} {data : Str} (hmd5 : fi.md5 = fileSum E c data)
    (hnew : ∀ v, p.server.getFileInfoFromLevelDB (fileSum E c data) = some v → v.md5 = [])
    (hapart : Apart E c (.recorded fi data :: p.events)) {e : FileInfo × Str} (he : e ∈ kept p.events) :
    e.1.md5 ≠ fi.md5 ∧ e.1.md5 ≠ E.md5 fi.fullpath := by
  have hst := (Event.mem_kept he).1
  have hd := hinv.digest e hst
  have hne : e.1.md5 ≠ fi.md5 := by
    intro h
    obtain ⟨v, hv, hsame⟩ := hinv.records e he
    rw [h, hmd5] at hv
    have := hnew v (Server.getFileInfo_eq_some.mpr hv)
    rw [hsame.md5] at this
    exact hd.2 this
  refine ⟨hne, ?_⟩
  have hdata : data ≠ e.2 := by
    intro h
    exact hne (hd.1.trans (by rw [hmd5, h]))
  rw [hd.1]
  exact (hapart e.1 e.2 (Or.inl (List.mem_cons_of_mem _ (Event.mem_stored.mp hst))) fi data List.mem_cons_self hdata).2

/-- A record that was not there before. -/
theorem runInv_recorded {p : Run} (hinv : RunInv E c p) {data : Str} {fi : FileInfo} {w : UploadDraw} {d : Disk}
    {s : Server} (hrec : UploadRecord E c w data d fi)
    (hnew : ∀ v, p.server.getFileInfoFromLevelDB (fileSum E c data) = some v → v.md5 = [])
    (hfiles : ∀ e ∈ kept p.events, d.read (getFilePathByInfo c e.1) = some e.2)
    (hsettled : ¬ Pending p.server (fileSum E c data)) (hdisk : s.disk = d)
    (hqueue : s.queueFileLog = p.server.queueFileLog)
    (hldb : s.ldb = (p.server.ldb.put fi.md5 (.record fi.persist)).put (E.md5 fi.fullpath) (.record fi.persist))
    (hapart : Apart E c (.recorded fi data :: p.events)) : RunInv E c ⟨s, .recorded fi data :: p.events⟩ := by
  have hoff := hrec.offSet_iff
  have hlegible : fi.offSet < 0 → fi.Legible := fun ho => (hrec.normal (hoff.mp ho)).2.2.1
  have hself : SameRecord fi.persist fi := sameRecord_persist hlegible
  have hold : ∀ {k v}, s.ldb.get k = some (.record v) →
      (k = fi.md5 ∨ k = E.md5 fi.fullpath) ∧ v = fi.persist ∨ p.server.ldb.get k = some (.record v) := by
    intro k v h
    rw [hldb] at h
    exact (Store.get_put_put_some h).imp_left fun h => ⟨h.1, by cases h.2; rfl⟩
  constructor
  case digest =>
    intro e he
    rcases List.mem_cons.mp he with rfl | he
    · exact ⟨hrec.md5, hrec.md5_ne⟩
    · exact hinv.digest e he
  case normal =>
    intro e he
    rcases List.mem_cons.mp he with rfl | he
    · exact hoff
    · exact hinv.normal e he
  case legible =>
    intro e he
    rcases List.mem_cons.mp he with rfl | he
    · exact hlegible
    · exact hinv.legible e he
  case files =>
    intro e he
    rw [hdisk]
    rcases Event.mem_kept_recorded.mp he with ⟨rfl, ho⟩ | he
    · exact (hrec.normal (hoff.mp ho)).2.2.2
    · exact hfiles e he
  case records =>
    intro e he
    rcases Event.mem_kept_recorded.mp he with ⟨rfl, _⟩ | he
    · refine ⟨fi.persist, ?_, hself⟩
      rw [hldb, Store.get_put]
      split
      · rfl
      · exact Store.get_put_self _ _ _
    · obtain ⟨v, hv, hsame⟩ := hinv.records e he
      obtain ⟨hmd5, hpath⟩ := kept_apart hinv hrec.md5 hnew hapart he
      refine ⟨v, ?_, hsame⟩
      rw [hldb, Store.get_put_ne _ _ hpath, Store.get_put_ne _ _ hmd5]
      exact hv
  case known =>
    intro k v hk
    rcases hold hk with ⟨hkey, rfl⟩ | hk
    · exact ⟨_, List.mem_cons_self, hself, hkey⟩
    · obtain ⟨e, he, hsame, hkey⟩ := hinv.known k v hk
      exact ⟨e, List.mem_cons_of_mem _ he, hsame, hkey⟩
  case live =>
    intro v hv ho
    rcases hold hv with ⟨_, rfl⟩ | hv
    · exact Or.inl ⟨(fi, data), Event.mem_kept_recorded.mpr (Or.inl ⟨rfl, ho⟩), hself⟩
    · rcases hinv.live v hv ho with ⟨e, he, hsame⟩ | ⟨q, hq, h⟩
      · exact Or.inl ⟨e, Event.mem_kept_recorded.mpr (Or.inr he), hsame⟩
      · exact Or.inr ⟨q, by rw [hqueue]; exact hq, h⟩
  case queue =>
    intro q hq
    rw [hqueue] at hq
    rcases hinv.queue q hq with ⟨hname, ho, ⟨e, he, hsame⟩, hk⟩ | hname
    · refine Or.inl ⟨hname, ho, ⟨e, List.mem_cons_of_mem _ he, hsame⟩, fun e' he' => ?_⟩
      rcases Event.mem_kept_recorded.mp he' with ⟨rfl, _⟩ | he'
      · intro h
        exact hsettled ⟨q, hq, hname, h.symm.trans hrec.md5⟩
      · exact hk e' he'
    · exact Or.inr hname
  case answers =>
    intro v x h
    rcases List.mem_cons.mp h with h | h
    · cases h
    · obtain ⟨e, he, hx⟩ := hinv.answers v x h
      exact ⟨e, List.mem_cons_of_mem _ he, hx⟩
  case acked =>
    intro a ha ho
    obtain ⟨e, he, hx⟩ := hinv.acked a ha ho
    exact ⟨e, Event.mem_kept_recorded.mpr (Or.inr he), hx⟩
  case removals =>
    intro v h
    rcases List.mem_cons.mp h with h | h
    · cases h
    · obtain ⟨e, he, hx⟩ := hinv.removals v h
      exact ⟨e, List.mem_cons_of_mem _ he, hx⟩

/-- An answer with the record of a content that is recorded. -/
theorem runInv_answered {p : Run} (hinv : RunInv E c p) {v : FileInfo} {data : Str} {e : FileInfo × Str}
    (he : e ∈ stored p.events) (hdata : e.2 = data) (hsame : SameRecord v e.1)
    (hkept : v.offSet < 0 → ∃ e ∈ kept p.events, e.2 = data ∧ SameRecord v e.1) :
    RunInv E c ⟨p.server, .answered v data :: p.events⟩ := by
  refine { hinv with answers := fun v' x h => ?_, acked := fun a ha ho => ?_, removals := fun v' h => ?_ }
  · rcases List.mem_cons.mp h with h | h
    · cases h
      exact ⟨e, he, hdata, hsame⟩
    · exact hinv.answers v' x h
  · rcases List.mem_cons.mp ha with rfl | ha
    · exact hkept ho
    · exact hinv.acked a ha ho
  · rcases List.mem_cons.mp h with h | h
    · cases h
    · exact hinv.removals v' h

theorem runInv_upload (hdist : c.enableDistinctFile = true) {p : Run} (hinv : RunInv E c p) {r : UploadRequest}
    {w : UploadDraw} (hgood : GoodUpload E c p r w) (hapart : Apart E c (p.upload E c r w).events) :
    RunInv E c (p.upload E c r w) := by
  have hout := upload_outcome hdist hgood.plain
  unfold Run.upload at hapart ⊢
  generalize p.server.upload E c r w = u at hout hapart ⊢
  have hfiles : ∀ d, KeepsFiles E c p.server r w d → ∀ e ∈ kept p.events, d.read (getFilePathByInfo c e.1) = some e.2 :=
    fun d hd e he => hd _ _ (hinv.files e he) (hgood.packs e he)
  cases hout with
  | refused msg d hd => exact { hinv with files := hfiles d hd }
  | known header data v result d domain hfile hv hne hd =>
    have hdata : r.data = data := by rw [UploadRequest.data, hfile]
    have hev : (UploadEnd.known v result).events r.data ++ p.events = .answered v data :: p.events := by rw [hdata]; rfl
    simp only [hev] at hapart ⊢
    obtain ⟨e, he, hx, hsame, hmd5⟩ := known_upload hinv hv hapart
    have hbase : RunInv E c ⟨{ p.server with disk := d, downloadDomain := domain }, p.events⟩ :=
      { hinv with files := hfiles d hd }
    refine runInv_answered hbase he hx hsame fun ho => ?_
    have hget : p.server.ldb.get v.md5 = some (.record v) := by
      rw [hmd5]
      exact Server.getFileInfo_eq_some.mp hv
    rcases hinv.live v hget ho with ⟨e', he', hsame'⟩ | hpend
    · refine ⟨e', he', ?_, hsame'⟩
      have hst := (Event.mem_kept he').1
      apply content_eq hapart (Or.inr List.mem_cons_self) (List.mem_cons_of_mem _ (Event.mem_stored.mp hst))
      exact Or.inl (by rw [← hmd5, hsame'.md5, (hinv.digest e' hst).1])
    · exact absurd (hmd5 ▸ hpend) (hgood.settled header data hfile)
  | recorded header data fi e d domain hfile hnone hrecd hansw hrec hd =>
    have hdata : r.data = data := by rw [UploadRequest.data, hfile]
    have hnew : ∀ v, p.server.getFileInfoFromLevelDB (fileSum E c data) = some v → v.md5 = [] := by
      intro v hv
      by_contra hne
      simp only [Server.distinctRecord, hdist, if_true, hv, Option.filter_some, hne, ne_eq, not_false_eq_true,
        decide_true] at hnone
      cases hnone
    have hsub : Apart E c (.recorded fi data :: p.events) := by
      refine hapart.mono fun e' he' => ?_
      simp only [UploadEnd.events, hrecd, hdata]
      rcases List.mem_cons.mp he' with rfl | he'
      · exact List.mem_append_left _ (List.mem_append_right _ List.mem_cons_self)
      · exact List.mem_append_right _ he'
    have hbase := runInv_recorded hinv hrec hnew (hfiles d hd) (hgood.settled header data hfile)
      (s := { ({ p.server with disk := d } : Server).saveFileMd5Log E fi CONST_FILE_Md5_FILE_NAME with
        downloadDomain := domain })
      (Server.saveFileMd5Log_disk E _ fi _) (Server.saveFileMd5Log_queue E _ fi _)
      (Server.saveFileMd5Log_files_ldb E _ hrec.md5_ne) hsub
    rcases hansw with ha | ha
    · have hev : e.events r.data ++ p.events = .answered fi data :: .recorded fi data :: p.events := by
        simp [UploadEnd.events, hrecd, ha, hdata]
      simp only [hev]
      refine runInv_answered hbase List.mem_cons_self rfl (.refl fi) fun ho => ⟨(fi, data), ?_, rfl, .refl fi⟩
      exact Event.mem_kept_recorded.mpr (Or.inl ⟨rfl, ho⟩)
    · have hev : e.events r.data ++ p.events = .recorded fi data :: p.events := by
        simp [UploadEnd.events, hrecd, ha, hdata]
      simp only [hev]
      exact hbase

/-! ### A deletion and the consumer -/

/-- The file a deletion takes away is the one the record is of. -/
def OwnFile (E : Env) (c : Config) (p : Run) (r : Request) : Prop :=
  ∀ v, p.server.getFileInfoFromLevelDB (removeKey E c r) = some v → v.offSet < 0 →
    p.server.disk.fileExists (getFilePathByInfo c v) = true →
    ∃ x, p.server.disk.read (getFilePathByInfo c v) = some x ∧ fileSum E c x = v.md5

/-- What a deletion can do: nothing, or take away the file of a record and queue its end. -/
theorem removeFile_cases (s : Server) (r : Request) (w : RemoveDraw) :
    ((s.removeFile E c r w).1.events = [] ∧ (s.removeFile E c r w).2.2 = s) ∨
    ∃ v, s.getFileInfoFromLevelDB (removeKey E c r) = some v ∧ v.offSet < 0 ∧
      s.disk.fileExists (getFilePathByInfo c v) = true ∧
      ((s.disk.remove (getFilePathByInfo c v) = none ∧ (s.removeFile E c r w).1.events = [] ∧
        (s.removeFile E c r w).2.2 = s.logLater v CONST_REMOME_Md5_FILE_NAME) ∨
      ∃ d, s.disk.remove (getFilePathByInfo c v) = some d ∧ (s.removeFile E c r w).1.events = [.removed v] ∧
        (s.removeFile E c r w).2.2 = { s with disk := d }.logLater v CONST_REMOME_Md5_FILE_NAME) := by
  unfold Server.removeFile Server.removeFileOn
  split
  · exact Or.inl ⟨rfl, rfl⟩
  split
  · exact Or.inl ⟨rfl, rfl⟩
  dsimp only
  split
  · exact Or.inl ⟨rfl, rfl⟩
  split
  · exact Or.inl ⟨rfl, rfl⟩
  rename_i v hv
  split
  · exact Or.inl ⟨rfl, rfl⟩
  rename_i ho
  split
  · rename_i hf
    refine Or.inr ⟨v, hv, by omega, hf.2, ?_⟩
    cases hr : s.disk.remove (getFilePathByInfo c v) with
    | none => exact Or.inl ⟨rfl, rfl, rfl⟩
    | some d => exact Or.inr ⟨d, rfl, rfl, rfl⟩
  · exact Or.inl ⟨rfl, rfl⟩

theorem runInv_remove {p : Run} (hinv : RunInv E c p) {r : Request} {w : RemoveDraw} (hown : OwnFile E c p r) :
    RunInv E c (p.remove E c r w) := by
  unfold Run.remove
  rcases removeFile_cases (E := E) (c := c) p.server r w with ⟨he, hs⟩ | ⟨v, hv, ho, hf, h⟩
  · simp only [he, hs]
    exact hinv
  obtain ⟨x, hx, hsum⟩ := hown v hv ho hf
  obtain ⟨l, t, hl, hn⟩ := Disk.read_eq_some.mp hx
  have hrem : p.server.disk.remove (getFilePathByInfo c v) = some (p.server.disk.erase l) := by
    simp only [Disk.remove, hl, hn]
  rcases h with ⟨hnone, _⟩ | ⟨d, hd, he, hs⟩
  · rw [hnone] at hrem; cases hrem
  obtain rfl : d = p.server.disk.erase l := Option.some.inj (hd.symm.trans hrem)
  simp only [he, hs, List.singleton_append]
  obtain ⟨e0, he0, hsame0, -⟩ := hinv.known _ v (Server.getFileInfo_eq_some.mp hv)
  refine { hinv with files := ?_, records := ?_, live := ?_, queue := ?_, answers := ?_, acked := ?_, removals := ?_ }
  · -- a kept file at the same place would have the record's digest
    intro e he
    obtain ⟨he, hne⟩ := Event.mem_kept_removed.mp he
    have hread := hinv.files e he
    show (p.server.disk.erase l).read _ = _
    rw [Disk.read_erase (by rw [hn]; simp), if_neg, hread]
    intro hel
    obtain ⟨k, t', hk, hkn⟩ := Disk.read_eq_some.mp hread
    rw [hel] at hk
    obtain rfl := Option.some.inj hk
    rw [hn] at hkn
    cases hkn
    exact hne ((hinv.digest e (Event.mem_kept he).1).1.trans hsum)
  · intro e he
    exact hinv.records e (Event.mem_kept_removed.mp he).1
  · intro v' hv' ho'
    rcases hinv.live v' hv' ho' with ⟨e, he, hsame⟩ | ⟨q, hq, h⟩
    · by_cases hne : e.1.md5 = v.md5
      · exact Or.inr ⟨⟨v, CONST_REMOME_Md5_FILE_NAME⟩, List.mem_append_right _ List.mem_cons_self, rfl,
          (hsame.md5.trans hne).symm⟩
      · exact Or.inl ⟨e, Event.mem_kept_removed.mpr ⟨he, hne⟩, hsame⟩
    · exact Or.inr ⟨q, List.mem_append_left _ hq, h⟩
  · intro q hq
    rcases List.mem_append.mp hq with hq | hq
    · rcases hinv.queue q hq with ⟨hname, hqo, hst, hk⟩ | hname
      · exact Or.inl ⟨hname, hqo, hst, fun e he => hk e (Event.mem_kept_removed.mp he).1⟩
      · exact Or.inr hname
    · obtain rfl := List.mem_singleton.mp hq
      exact Or.inl ⟨rfl, ho, ⟨e0, he0, hsame0⟩, fun e he => (Event.mem_kept_removed.mp he).2⟩
  · intro v' x' h
    rcases List.mem_cons.mp h with h | h
    · cases h
    · exact hinv.answers v' x' h
  · intro a ha hao
    simp only [acked, List.mem_filter, decide_eq_true_eq] at ha
    obtain ⟨e, he, hx, hsame⟩ := hinv.acked a ha.1 hao
    exact ⟨e, Event.mem_kept_removed.mpr ⟨he, fun h => ha.2 (hsame.md5.trans h)⟩, hx, hsame⟩
  · intro v' h
    rcases List.mem_cons.mp h with h | h
    · cases h
      exact ⟨e0, he0, hsame0.offSet ▸ ho, hsame0⟩
    · exact hinv.removals v' h

/-- Records and entries of the queue may go, if no kept file's record does and a record that
    stays keeps its deletion. -/
theorem RunInv.fewer {p : Run} (hinv : RunInv E c p) {s : Server} (hdisk : s.disk = p.server.disk)
    (hldb : ∀ k v, s.ldb.get k = some (.record v) → p.server.ldb.get k = some (.record v))
    (hkept : ∀ e ∈ kept p.events, s.ldb.get e.1.md5 = p.server.ldb.get e.1.md5)
    (hqueue : ∀ q ∈ s.queueFileLog, q ∈ p.server.queueFileLog)
    (hpending : ∀ v, s.ldb.get v.md5 = some (.record v) → Pending p.server v.md5 → Pending s v.md5) :
    RunInv E c ⟨s, p.events⟩ := by
  refine { hinv with files := ?_, records := ?_, known := ?_, live := ?_, queue := ?_ }
  · intro e he
    rw [hdisk]
    exact hinv.files e he
  · intro e he
    rw [hkept e he]
    exact hinv.records e he
  · intro k v h
    exact hinv.known k v (hldb k v h)
  · intro v h ho
    exact (hinv.live v (hldb _ v h) ho).imp_right (hpending v h)
  · intro q hq
    exact hinv.queue q (hqueue q hq)

/-- A record that goes takes no kept file's record with it. -/
theorem runInv_consumerLog {p : Run} (hinv : RunInv E c p) (hapart : Apart E c p.events) :
    RunInv E c (p.consumerLog E) := by
  unfold Run.consumerLog Server.consumerLog
  cases hq : p.server.queueFileLog with
  | nil => exact hinv
  | cons q rest =>
    dsimp only
    have hqueue : ∀ n, ({ p.server with queueFileLog := rest }.saveFileMd5Log E q.fileInfo n).queueFileLog = rest :=
      fun n => Server.saveFileMd5Log_queue E _ _ n
    have hmem : ∀ n, ∀ q' ∈ ({ p.server with queueFileLog := rest }.saveFileMd5Log E q.fileInfo n).queueFileLog,
        q' ∈ p.server.queueFileLog := by
      intro n q' h
      rw [hqueue] at h
      rw [hq]
      exact List.mem_cons_of_mem _ h
    -- only the deletion of the entry itself leaves the queue
    have hpending : ∀ n m, (q.fileName = CONST_REMOME_Md5_FILE_NAME → q.fileInfo.md5 ≠ m) → Pending p.server m →
        Pending ({ p.server with queueFileLog := rest }.saveFileMd5Log E q.fileInfo n) m := by
      intro n m hne hp
      obtain ⟨q', hq', hn', hm'⟩ := hp
      rw [hq] at hq'
      rcases List.mem_cons.mp hq' with rfl | hq'
      · exact absurd hm' (hne hn')
      · exact ⟨q', by rw [hqueue]; exact hq', hn', hm'⟩
    rcases hinv.queue q (by rw [hq]; exact List.mem_cons_self) with ⟨hname, ho, ⟨e0, he0, hsame0⟩, hk⟩ | hname
    · have hmd5 : q.fileInfo.md5 ≠ [] := hsame0.md5 ▸ (hinv.digest e0 he0).2
      have hldb := Server.saveFileMd5Log_removes_ldb E { p.server with queueFileLog := rest } hmd5
      have hstill : ∀ {k v}, ({ p.server with queueFileLog := rest }.saveFileMd5Log E q.fileInfo
          CONST_REMOME_Md5_FILE_NAME).ldb.get k = some (.record v) →
          k ≠ q.fileInfo.md5 ∧ p.server.ldb.get k = some (.record v) := by
        intro k v h
        rw [hldb] at h
        exact Store.get_del_some (Store.get_del_some h).2
      rw [hname]
      refine hinv.fewer (Server.saveFileMd5Log_disk E _ _ _) (fun k v h => (hstill h).2) (fun e he => ?_) (hmem _)
        fun v h => hpending _ _ fun _ => (hstill h).1.symm
      have hst := (Event.mem_kept he).1
      have hne : e.1.md5 ≠ E.md5 q.fileInfo.fullpath := by
        have hdata : e0.2 ≠ e.2 := by
          intro h
          apply hk e he
          rw [(hinv.digest e hst).1, hsame0.md5, (hinv.digest e0 he0).1, h]
        rw [(hinv.digest e hst).1, hsame0.fullpath ho]
        exact (hapart e.1 e.2 (Or.inl (Event.mem_stored.mp hst)) e0.1 e0.2 (Event.mem_stored.mp he0) hdata).2
      rw [hldb, Store.get_del_ne _ hne, Store.get_del_ne _ (hk e he)]
    · have hldb := Server.saveFileMd5Log_other_ldb E { p.server with queueFileLog := rest } q.fileInfo errorName_ne.1
        errorName_ne.2
      have hnotRemoves : q.fileName ≠ CONST_REMOME_Md5_FILE_NAME := hname ▸ errorName_ne.2
      rw [hname]
      exact hinv.fewer (Server.saveFileMd5Log_disk E _ _ _) (fun k v h => hldb ▸ h) (fun e _ => by rw [hldb]) (hmem _)
        fun v _ => hpending _ _ fun hn => absurd hn hnotRemoves

/-! ### Pushing a record to peers -/

/-- What pushing a record does to the databases and the log queue: the record may be saved
    again under its digest, and errors are queued. -/
structure Pushed (s : Server) (fi : FileInfo) (r : Server × FileInfo × List PeerEvent) : Prop where
  same : SameRecord r.2.1 fi
  other : ∀ k, k ≠ fi.md5 → r.1.ldb.get k = s.ldb.get k
  self : r.1.ldb.get fi.md5 = s.ldb.get fi.md5 ∨ ∃ v, r.1.ldb.get fi.md5 = some (.record v) ∧ SameRecord v fi
  queue : ∀ q ∈ r.1.queueFileLog, q ∈ s.queueFileLog ∨ q.fileName = CONST_Md5_ERROR_FILE_NAME
  queued : ∀ q ∈ s.queueFileLog, q ∈ r.1.queueFileLog

theorem SameRecord.legible {v w : FileInfo} (h : SameRecord v w) (hw : w.offSet < 0 → w.Legible) (ho : v.offSet < 0) :
    v.Legible := by
  rw [FileInfo.legible_iff, h.fullpath ho, ← FileInfo.legible_iff]
  exact hw (h.offSet ▸ ho)

theorem Pushed.refl (s : Server) (fi fi' : FileInfo) (h : SameRecord fi' fi) (e : List PeerEvent) : Pushed s fi (s, fi', e) :=
  ⟨h, fun _ _ => rfl, Or.inl rfl, fun _ h => Or.inl h, fun _ h => h⟩

theorem Pushed.noted (s : Server) (fi fi' : FileInfo) (hfi : fi.offSet < 0 → fi.Legible) (h : SameRecord fi' fi) (peer : Str)
    (e : List PeerEvent) : Pushed s fi ((s.notePeer E fi' peer).1, (s.notePeer E fi' peer).2, e) := by
  have hnoted : SameRecord { fi' with peers := fi'.peers ++ [peer] } fi := ⟨h.md5, h.offSet, h.fullpath⟩
  refine ⟨hnoted, fun k hk => ?_, Or.inr ⟨({ fi' with peers := fi'.peers ++ [peer] } : FileInfo).persist, ?_, ?_⟩,
    fun _ h => Or.inl h, fun _ h => h⟩
  · exact Store.get_put_ne _ _ (h.md5 ▸ hk)
  · rw [← h.md5]
    exact Store.get_put_self s.ldb fi'.md5 _
  · exact (sameRecord_persist (hnoted.legible hfi)).trans hnoted

theorem Pushed.failed (s : Server) (fi fi' : FileInfo) (h : SameRecord fi' fi) (q : List FileInfo) (e : List PeerEvent) :
    Pushed s fi ({ s with queueToPeers := q }.logLater fi' CONST_Md5_ERROR_FILE_NAME, fi', e) := by
  refine ⟨h, fun _ _ => rfl, Or.inl rfl, fun q hq => ?_, fun q hq => List.mem_append_left _ hq⟩
  rcases List.mem_append.mp hq with hq | hq
  · exact Or.inl hq
  · obtain rfl := List.mem_singleton.mp hq
    exact Or.inr rfl

theorem sameRecord_sized (fi : FileInfo) (n : Node) : SameRecord (Server.sized fi n) fi := by
  unfold Server.sized
  split <;> exact ⟨rfl, rfl, fun _ => rfl⟩

theorem postToPeer_pushed (s : Server) (entry fi : FileInfo) (hfi : fi.offSet < 0 → fi.Legible) (peer : Str) (a : PeerAnswer) :
    Pushed s fi (s.postToPeer E c entry fi peer a) := by
  have hout := Server.postToPeer_outcome (E := E) (c := c) s entry fi peer a
  generalize s.postToPeer E c entry fi peer a = r at hout ⊢
  cases hout with
  | passed => exact .refl s fi fi (.refl fi) _
  | noted n e _ _ => exact .noted s fi _ hfi (sameRecord_sized fi n) peer e
  | failed n retry q e _ _ =>
    have hsame := sameRecord_sized fi n
    exact .failed s fi { Server.sized fi n with retry := retry } ⟨hsame.md5, hsame.offSet, hsame.fullpath⟩ q e

theorem postLoop_pushed (entry : FileInfo) (l : List (Str × PeerAnswer)) : ∀ (s : Server) (fi : FileInfo),
    (fi.offSet < 0 → fi.Legible) → Pushed s fi (Server.postLoop E c entry s fi l) := by
  induction l with
  | nil =>
    intro s fi _
    exact .refl s fi fi (.refl fi) _
  | cons x l ih =>
    intro s fi hfi
    have h := postToPeer_pushed (E := E) (c := c) s entry fi hfi x.1 x.2
    have h' := ih (s.postToPeer E c entry fi x.1 x.2).1 (s.postToPeer E c entry fi x.1 x.2).2.1 (h.same.legible hfi)
    have hmd5 := h.same.md5
    refine ⟨h'.same.trans h.same, fun k hk => (h'.other k (hmd5 ▸ hk)).trans (h.other k hk), ?_, fun q hq => ?_,
      fun q hq => h'.queued q (h.queued q hq)⟩
    · rcases h'.self with h1 | ⟨v, hv, hs⟩
      · rw [hmd5] at h1
        rcases h.self with h2 | ⟨v, hv, hs⟩
        · exact Or.inl (h1.trans h2)
        · exact Or.inr ⟨v, h1.trans hv, hs⟩
      · exact Or.inr ⟨v, hmd5 ▸ hv, hs.trans h.same⟩
    · rcases h'.queue q hq with hq | hq
      · exact h.queue q hq
      · exact Or.inr hq

theorem runInv_post {p : Run} (hinv : RunInv E c p) {fi : FileInfo} {answer : Nat → PeerAnswer} {e0 : FileInfo × Str}
    (he0 : e0 ∈ kept p.events) (hsame0 : SameRecord fi e0.1) : RunInv E c (p.post E c fi answer) := by
  have hlegible : fi.offSet < 0 → fi.Legible := hsame0.legible (hinv.legible e0 (Event.mem_kept he0).1)
  have h : Pushed p.server fi (p.server.postFileToPeer E c fi answer) := postLoop_pushed _ _ _ _ hlegible
  have hdisk : (p.server.postFileToPeer E c fi answer).1.disk = p.server.disk := Server.postLoop_disk
  unfold Run.post
  generalize p.server.postFileToPeer E c fi answer = r at h hdisk
  obtain ⟨v0, hv0, hsv0⟩ := hinv.records e0 he0
  refine { hinv with files := ?_, records := ?_, known := ?_, live := ?_, queue := ?_ }
  · intro e he
    show r.1.disk.read _ = _
    rw [hdisk]
    exact hinv.files e he
  · intro e he
    obtain ⟨v, hv, hs⟩ := hinv.records e he
    by_cases hk : e.1.md5 = fi.md5
    · -- the record of the digest is that of `e0`
      have hve0 : SameRecord v e0.1 := by
        rw [hk, hsame0.md5, hv0] at hv
        cases hv
        exact hsv0
      rw [hk]
      rcases h.self with hself | ⟨u, hu, hus⟩
      · refine ⟨v, ?_, hs⟩
        rw [hself, ← hk]
        exact hv
      · refine ⟨u, hu, ?_⟩
        exact (hus.trans hsame0).trans (hve0.symm.trans hs)
    · refine ⟨v, ?_, hs⟩
      rw [h.other _ hk]
      exact hv
  · intro k v hk
    by_cases hkf : k = fi.md5
    · subst hkf
      rcases h.self with hself | ⟨u, hu, hus⟩
      · rw [hself] at hk
        exact hinv.known _ v hk
      · rw [hu] at hk
        cases hk
        exact ⟨e0, (Event.mem_kept he0).1, hus.trans hsame0, Or.inl hus.md5.symm⟩
    · rw [h.other k hkf] at hk
      exact hinv.known k v hk
  · intro v hv ho
    have hold : p.server.ldb.get v.md5 = some (.record v) →
        (∃ e ∈ kept p.events, SameRecord v e.1) ∨ Pending r.1 v.md5 := fun hv => by
      rcases hinv.live v hv ho with hl | ⟨q, hq, hn⟩
      · exact Or.inl hl
      · exact Or.inr ⟨q, h.queued q hq, hn⟩
    by_cases hkf : v.md5 = fi.md5
    · rw [hkf] at hv
      rcases h.self with hself | ⟨u, hu, hus⟩
      · rw [hself, ← hkf] at hv
        exact hold hv
      · rw [hu] at hv
        cases hv
        exact Or.inl ⟨e0, he0, hus.trans hsame0⟩
    · rw [h.other _ hkf] at hv
      exact hold hv
  · intro q hq
    rcases h.queue q hq with hq | hq
    · exact hinv.queue q hq
    · exact Or.inr hq

/-! ## Runs of uploads -/

variable (E c)

/-- Uploads one after another, with the pushes they start and the log consumer. -/
inductive UploadStep : Run → Run → Prop
  | upload (p : Run) (r : UploadRequest) (w : UploadDraw) :
      (∀ header data fi, uploadForm E c r w.stamp = .ok (header, data, fi) → PlainUpload E c p.server header data fi w) →
      UploadStep p (p.upload E c r w)
  | post (p : Run) (fi : FileInfo) (answer : Nat → PeerAnswer) : (∃ e ∈ stored p.events, SameRecord fi e.1) →
      UploadStep p (p.post E c fi answer)
  | consumerLog (p : Run) : UploadStep p (p.consumerLog E)

variable {E c}

theorem uploadStep_events {p p' : Run} (h : UploadStep E c p p') : ∀ e ∈ p.events, e ∈ p'.events := by
  cases h with
  | upload r w _ => exact fun e he => List.mem_append_right _ he
  | post fi answer _ => exact fun e he => he
  | consumerLog => exact fun e he => he

structure AllKept (p : Run) : Prop where
  kept : ∀ e ∈ stored p.events, e ∈ kept p.events
  acked : ∀ v x, Event.answered v x ∈ p.events → (v, x) ∈ acked p.events
  queue : ∀ q ∈ p.server.queueFileLog, q.fileName = CONST_Md5_ERROR_FILE_NAME

theorem AllKept.not_pending {p : Run} (h : AllKept p) (md5 : Str) : ¬ Pending p.server md5 := by
  intro hx
  obtain ⟨q, hq, hn, _⟩ := hx
  exact errorName_ne.2 ((h.queue q hq).symm.trans hn)

theorem allKept_upload (hdist : c.enableDistinctFile = true) (hmerge : c.enableMergeSmallFile = false) {p : Run}
    (h : AllKept p) {r : UploadRequest} {w : UploadDraw}
    (hplain : ∀ header data fi, uploadForm E c r w.stamp = .ok (header, data, fi) →
      PlainUpload E c p.server header data fi w) : AllKept (p.upload E c r w) := by
  have hm : ∀ n, merges c n = false := by simp [merges, hmerge]
  have hout := upload_outcome hdist hplain
  unfold Run.upload
  generalize p.server.upload E c r w = u at hout ⊢
  -- one record more, and then one answer more
  have hrecorded : ∀ fi data (s : Server), fi.offSet = -1 → s.queueFileLog = p.server.queueFileLog →
      AllKept ⟨s, .recorded fi data :: p.events⟩ := by
    intro fi data s ho hs
    refine ⟨fun e he => ?_, fun v x hv => ?_, fun q hq => h.queue q (hs ▸ hq)⟩
    · rw [Event.mem_kept_recorded]
      rcases List.mem_cons.mp he with rfl | he
      · exact Or.inl ⟨rfl, by omega⟩
      · exact Or.inr (h.kept e he)
    · rcases List.mem_cons.mp hv with hv | hv
      · cases hv
      · exact h.acked v x hv
  have hanswered : ∀ {q : Run} v data, AllKept q → AllKept ⟨q.server, .answered v data :: q.events⟩ := by
    intro q v data hq
    refine ⟨hq.kept, fun v' x hv => ?_, hq.queue⟩
    rcases List.mem_cons.mp hv with hv | hv
    · cases hv
      exact List.mem_cons_self
    · exact List.mem_cons_of_mem _ (hq.acked v' x hv)
  cases hout with
  | refused msg d _ => exact ⟨h.kept, h.acked, h.queue⟩
  | known header data v result d domain _ _ _ _ =>
    exact hanswered (q := ⟨{ p.server with disk := d, downloadDomain := domain }, p.events⟩) v r.data
      ⟨h.kept, h.acked, h.queue⟩
  | recorded header data fi e d domain _ _ hrecd hansw hrec _ =>
    have hbase := hrecorded fi r.data
      { ({ p.server with disk := d } : Server).saveFileMd5Log E fi CONST_FILE_Md5_FILE_NAME with downloadDomain := domain }
      (hrec.normal (hm _)).1 (Server.saveFileMd5Log_queue E _ fi _)
    rcases hansw with ha | ha
    · have hev : e.events r.data ++ p.events = .answered fi r.data :: .recorded fi r.data :: p.events := by
        simp [UploadEnd.events, hrecd, ha]
      simp only [hev]
      exact hanswered fi r.data hbase
    · have hev : e.events r.data ++ p.events = .recorded fi r.data :: p.events := by
        simp [UploadEnd.events, hrecd, ha]
      simp only [hev]
      exact hbase

theorem uploadRun (hdist : c.enableDistinctFile = true) (hmerge : c.enableMergeSmallFile = false) {d : Disk} {p : Run}
    (hrun : Relation.ReflTransGen (UploadStep E c) ⟨Server.fresh d, []⟩ p) (hapart : Apart E c p.events) :
    RunInv E c p ∧ AllKept p := by
  induction hrun with
  | refl =>
    refine ⟨runInv_start d, fun e he => ?_, fun v x h => ?_, fun q hq => ?_⟩
    · cases he
    · cases h
    · cases hq
  | @tail p p' _ hstep ih =>
    obtain ⟨hinv, hall⟩ := ih (hapart.mono (uploadStep_events hstep))
    cases hstep with
    | upload r w hplain =>
      refine ⟨runInv_upload hdist hinv ⟨hplain, fun _ _ _ => hall.not_pending _, fun e _ => ?_⟩ hapart,
        allKept_upload hdist hmerge hall hplain⟩
      intro header data fi _ hm
      simp [merges, hmerge] at hm
    | post fi answer h =>
      obtain ⟨e, he, hsame⟩ := h
      refine ⟨runInv_post hinv (hall.kept e he) hsame, hall.kept, hall.acked, fun q hq => ?_⟩
      have hlegible := hsame.legible (hinv.legible e he)
      exact ((postLoop_pushed (E := E) (c := c) fi _ p.server fi hlegible).queue q hq).elim (hall.queue q) id
    | consumerLog =>
      exact ⟨runInv_consumerLog hinv hapart, hall.kept, hall.acked,
        fun q hq => hall.queue q (Server.mem_of_mem_consumerLog E hq)⟩

/-- Every upload answered with an address reads, at the path of the record answered, the
    bytes it was sent with, and the record under its digest is of that file. -/
theorem acknowledged_uploads_stay (hdist : c.enableDistinctFile = true) (hmerge : c.enableMergeSmallFile = false)
    {d : Disk} {p : Run} (hrun : Relation.ReflTransGen (UploadStep E c) ⟨Server.fresh d, []⟩ p)
    (hapart : Apart E c p.events) {v : FileInfo} {x : Str} (h : Event.answered v x ∈ p.events) :
    p.server.disk.read (getFilePathByInfo c v) = some x ∧
      ∃ u, p.server.getFileInfoFromLevelDB (fileSum E c x) = some u ∧ SameRecord u v ∧
        getFilePathByInfo c u = getFilePathByInfo c v := by
  obtain ⟨hinv, hall⟩ := uploadRun hdist hmerge hrun hapart
  obtain ⟨e, he, hx, hsame⟩ := hinv.answers v x h
  have hk := hall.kept e he
  have ho : v.offSet < 0 := hsame.offSet ▸ (Event.mem_kept hk).2
  obtain ⟨u, hu, hus⟩ := hinv.records e hk
  have huv := hus.trans hsame.symm
  have huo : u.offSet < 0 := by rwa [huv.offSet]
  refine ⟨?_, u, ?_, huv, huv.path c huo⟩
  · rw [hsame.path c ho, hinv.files e hk, hx]
  · rw [(hinv.digest e he).1, hx] at hu
    exact Server.getFileInfo_eq_some.mpr hu

/-! ## Runs with deletions -/

variable (E c)

/-- Uploads, deletions and the log consumer in any order. -/
inductive DeleteStep : Run → Run → Prop
  | upload (p : Run) (r : UploadRequest) (w : UploadDraw) : GoodUpload E c p r w → DeleteStep p (p.upload E c r w)
  | remove (p : Run) (r : Request) (w : RemoveDraw) : OwnFile E c p r → DeleteStep p (p.remove E c r w)
  | consumerLog (p : Run) : DeleteStep p (p.consumerLog E)

variable {E c}

theorem deleteStep_events {p p' : Run} (h : DeleteStep E c p p') : ∀ e ∈ p.events, e ∈ p'.events := by
  cases h with
  | upload r w _ => exact fun e he => List.mem_append_right _ he
  | remove r w _ => exact fun e he => List.mem_append_right _ he
  | consumerLog => exact fun e he => he

theorem deleteRun (hdist : c.enableDistinctFile = true) {d : Disk} {p : Run}
    (hrun : Relation.ReflTransGen (DeleteStep E c) ⟨Server.fresh d, []⟩ p) (hapart : Apart E c p.events) : RunInv E c p := by
  induction hrun with
  | refl => exact runInv_start d
  | tail _ hstep ih =>
    have hinv := ih (hapart.mono (deleteStep_events hstep))
    cases hstep with
    | upload r w hgood => exact runInv_upload hdist hinv hgood hapart
    | remove r w hown => exact runInv_remove hinv hown
    | consumerLog => exact runInv_consumerLog hinv hapart

/-- A content that was deleted, then uploaded and not deleted since has a record, and the
    file that names has it. -/
theorem reuploads_stay (hdist : c.enableDistinctFile = true) {d : Disk} {p : Run}
    (hrun : Relation.ReflTransGen (DeleteStep E c) ⟨Server.fresh d, []⟩ p) (hapart : Apart E c p.events)
    {post pre : List Event} {v w : FileInfo} {x : Str} (hev : p.events = post ++ .answered v x :: pre)
    (hpre : Event.removed w ∈ pre) (hw : w.md5 = fileSum E c x)
    (hpost : ∀ u, Event.removed u ∈ post → u.md5 ≠ fileSum E c x) :
    ∃ u, p.server.getFileInfoFromLevelDB (fileSum E c x) = some u ∧ u.md5 = fileSum E c x ∧
      p.server.disk.read (getFilePathByInfo c u) = some x := by
  have hinv := deleteRun hdist hrun hapart
  have hmemv : Event.answered v x ∈ p.events := by rw [hev]; exact List.mem_append_right _ List.mem_cons_self
  have hmemw : Event.removed w ∈ p.events := by
    rw [hev]
    exact List.mem_append_right _ (List.mem_cons_of_mem _ hpre)
  obtain ⟨e, he, hx, hsame⟩ := hinv.answers v x hmemv
  obtain ⟨e', he', ho', hsame'⟩ := hinv.removals w hmemw
  -- the deleted file was a normal one of the same content
  have hx' : e'.2 = x := by
    apply content_eq hapart (Or.inr hmemv) (Event.mem_stored.mp he')
    exact Or.inl (by rw [← hw, hsame'.md5, (hinv.digest e' he').1])
  have ho : v.offSet < 0 := by
    rw [hsame.offSet, hinv.normal e he, hx, ← hx', ← hinv.normal e' he']
    exact ho'
  have hmd5 : v.md5 = fileSum E c x := by rw [hsame.md5, (hinv.digest e he).1, hx]
  have hacked : (v, x) ∈ acked p.events := by
    rw [hev]
    exact Event.mem_acked fun u hu => hmd5 ▸ hpost u hu
  obtain ⟨k, hk, hkx, hksame⟩ := hinv.acked _ hacked ho
  obtain ⟨u, hu, hus⟩ := hinv.records k hk
  have hkmd5 : k.1.md5 = fileSum E c x := hksame.md5.symm.trans hmd5
  have huo : u.offSet < 0 := hus.offSet ▸ (Event.mem_kept hk).2
  refine ⟨u, Server.getFileInfo_eq_some.mpr (hkmd5 ▸ hu), hus.md5.trans hkmd5, ?_⟩
  rw [hus.path c huo, hinv.files k hk, hkx]

end

/-! ## Fixed inputs -/

def uploadConfig : Config := { group := "group1".toList, defaultScene := "default".toList, enableDistinctFile := true }

def emptyRun : Run := ⟨Server.fresh { cwd := [], nodes := ∅ }, []⟩

def fileUpload (filename asked data : Str) : UploadRequest where
  requestURI := "/upload".toList
  values := [("filename".toList, asked)]
  file := .ok (⟨filename, data.length⟩, data)

def UploadDraw.sample : UploadDraw := { stamp := 0, now := 0, small := .sample }

def removal (data : Str) : Request :=
  { requestURI := "/delete".toList, body := [("md5".toList, Go.md5 data), ("inner".toList, "1".toList)] }

def helloRecord : FileInfo :=
  { name := "a.txt".toList, path := "files/default/19700101/00/00".toList, md5 := Go.md5 "hello".toList, size := 5
    peers := [[]], scene := "default".toList, offSet := -1 }

def helloUpload : UploadRequest := fileUpload "a.txt".toList [] "hello".toList

def firstFolder : Str := "files/default/19700101/00/00".toList

/-- The file of `r` is asked for at a place of the first day that nothing is at. -/
def FreeUpload (c : Config) (s : Server) (r : UploadRequest) (header : FileHeader) : Prop :=
  uploadFolder Env.plain c (r.fileInfo c 0) 0 = firstFolder ∧
  (withFolder s.disk firstFolder).fileExists
    (firstFolder ++ '/' :: askedName Env.plain c header (r.fileInfo c 0) .sample) = false ∧
  Go.valid (askedName Env.plain c header (r.fileInfo c 0) .sample) = true

instance (c : Config) (s : Server) (r : UploadRequest) (header : FileHeader) : Decidable (FreeUpload c s r header) :=
  inferInstanceAs (Decidable (_ ∧ _))

theorem plain_of_free {c : Config} {s : Server} {r : UploadRequest} {header : FileHeader} {data : Str} (hdir : c.dockerDir = [])
    (hfile : r.file = .ok (header, data)) (hplace : FreeUpload c s r header)
    (header' : FileHeader) (data' : Str) (fi : FileInfo) (h : uploadForm Env.plain c r 0 = .ok (header', data', fi)) :
    PlainUpload Env.plain c s header' data' fi .sample := by
  obtain ⟨hfolder, hfree, hvalid⟩ := hplace
  obtain ⟨hfile', rfl⟩ := uploadForm_ok _ _ h
  cases hfile.symm.trans hfile'
  have hfolder' : uploadFolder Env.plain c (r.fileInfo c 0) UploadDraw.sample.now = firstFolder := hfolder
  refine ⟨⟨?_, ?_⟩, fun htaken => ?_, fun _ _ => ⟨?_, hvalid⟩⟩
  · rw [hdir]
    decide
  · rw [hfolder']
    decide
  · have hexists := htaken.1
    rw [hfolder'] at hexists
    exact Bool.noConfusion (hfree.symm.trans hexists)
  · rw [hfolder', hdir]
    decide

def namedUpload : UploadRequest := fileUpload "a.txt".toList "x.txt".toList "hello".toList

def secondUpload : UploadRequest := fileUpload "b.txt".toList [] "second".toList

def twoNamesRun : Run :=
  (emptyRun.upload Env.plain uploadConfig namedUpload .sample).upload Env.plain uploadConfig secondUpload .sample

def namedRecord : FileInfo := { helloRecord with reName := "x.txt".toList }

def threeUploadsRun : Run :=
  (twoNamesRun.upload Env.plain uploadConfig namedUpload .sample).consumerLog Env.plain

theorem threeUploadsRun_facts :
    FreeUpload uploadConfig emptyRun.server namedUpload ⟨"a.txt".toList, 5⟩ ∧
    FreeUpload uploadConfig (emptyRun.upload Env.plain uploadConfig namedUpload .sample).server secondUpload
      ⟨"b.txt".toList, 6⟩ ∧
    twoNamesRun.server.distinctRecord uploadConfig (fileSum Env.plain uploadConfig "hello".toList) = some namedRecord ∧
    (withFolder twoNamesRun.server.disk firstFolder).fileExists (firstFolder ++ "/0_a.txt".toList) = false ∧
    threeUploadsRun.events = .answered namedRecord "hello".toList :: twoNamesRun.events ∧
    Apart Env.plain uploadConfig threeUploadsRun.events := by
  decide +kernel

theorem namedUpload_again (header : FileHeader) (data : Str) (fi : FileInfo)
    (h : uploadForm Env.plain uploadConfig namedUpload 0 = .ok (header, data, fi)) :
    PlainUpload Env.plain uploadConfig twoNamesRun.server header data fi .sample := by
  obtain ⟨hfile, rfl⟩ := uploadForm_ok _ _ h
  cases hfile
  obtain ⟨⟨hfolder, -⟩, -, hknown, hfree, -⟩ := threeUploadsRun_facts
  have hfolder' : uploadFolder Env.plain uploadConfig (namedUpload.fileInfo uploadConfig 0) UploadDraw.sample.now = firstFolder :=
    hfolder
  refine ⟨⟨by decide, ?_⟩, fun _ => ⟨⟨0, by decide, ?_⟩, fun hre => ?_, fun _ => ?_⟩, fun hnone => ?_⟩
  · rw [hfolder']
    decide
  · rw [hfolder']
    exact hfree
  · exact absurd hre (by decide)
  · exact Or.inl ⟨_, hknown, by decide⟩
  · rw [hknown] at hnone
    cases hnone

theorem hello_stays : threeUploadsRun.server.disk.read (getFilePathByInfo uploadConfig namedRecord) = some "hello".toList := by
  obtain ⟨hplace, hplace', -, -, hevents, hapart⟩ := threeUploadsRun_facts
  have hfirst : UploadStep Env.plain uploadConfig emptyRun _ := .upload emptyRun namedUpload .sample (plain_of_free rfl rfl hplace)
  have hsecond : UploadStep Env.plain uploadConfig _ twoNamesRun :=
    .upload _ secondUpload .sample (plain_of_free rfl rfl hplace')
  have hthird : UploadStep Env.plain uploadConfig twoNamesRun _ := .upload twoNamesRun namedUpload .sample namedUpload_again
  have hlast : UploadStep Env.plain uploadConfig _ threeUploadsRun := .consumerLog _
  exact (acknowledged_uploads_stay rfl rfl (.tail (.tail (.tail (.single hfirst) hsecond) hthird) hlast) hapart
    (hevents ▸ List.mem_cons_self)).1

/-- `first` is uploaded for the name `x.txt`; `second` under its own name, and again for the
    name `x.txt`. The third is written as `0_b.txt`, found to be known, and removed by the path
    of its record, which is the first's. -/
theorem a_repeated_upload_deletes_another_file :
    let up (name asked data : String) (p : Run) : Run :=
      p.upload Env.plain uploadConfig (fileUpload name.toList asked.toList data.toList) .sample
    let p := up "b.txt" "x.txt" "second" (up "b.txt" "" "second" (up "a.txt" "x.txt" "first" emptyRun))
    (acked p.events).length = 3 ∧
      ∃ e ∈ acked p.events, e.2 = "first".toList ∧ p.server.disk.read (getFilePathByInfo uploadConfig e.1) = none := by
  decide +kernel

def peerConfig : Config := { uploadConfig with peers := ["http://b".toList] }

def helloUploaded : Run := emptyRun.upload Env.plain peerConfig helloUpload .sample

def helloPushed : Run := helloUploaded.post Env.plain peerConfig helloRecord fun _ => { sync := some "http://b".toList }

def secondUploaded : Run := helloPushed.upload Env.plain peerConfig secondUpload .sample

def helloRemoved : Run := secondUploaded.remove Env.plain peerConfig (removal "hello".toList) {}

def helloRun : Run := emptyRun.upload Env.plain uploadConfig helloUpload .sample

def deletedRun : Run :=
  (helloRun.remove Env.plain uploadConfig (removal "hello".toList) {}).consumerLog Env.plain

def reuploadedRun : Run := deletedRun.upload Env.plain uploadConfig helloUpload .sample

theorem reuploadedRun_facts :
    FreeUpload uploadConfig emptyRun.server helloUpload ⟨"a.txt".toList, 5⟩ ∧
    (helloRun.events = [.answered helloRecord "hello".toList, .recorded helloRecord "hello".toList] ∧
      helloRun.server.getFileInfoFromLevelDB (removeKey Env.plain uploadConfig (removal "hello".toList)) =
        some helloRecord ∧
      helloRun.server.disk.read (getFilePathByInfo uploadConfig helloRecord) = some "hello".toList) ∧
    (deletedRun.events = .removed helloRecord :: helloRun.events ∧ deletedRun.server.queueFileLog = [] ∧
      kept deletedRun.events = [] ∧ FreeUpload uploadConfig deletedRun.server helloUpload ⟨"a.txt".toList, 5⟩) ∧
    reuploadedRun.events =
      .answered helloRecord "hello".toList :: .recorded helloRecord "hello".toList :: deletedRun.events ∧
    Apart Env.plain uploadConfig reuploadedRun.events := by
  decide +kernel

theorem hello_good {p : Run} (hplace : FreeUpload uploadConfig p.server helloUpload ⟨"a.txt".toList, 5⟩)
    (hqueue : p.server.queueFileLog = []) (hkept : kept p.events = []) :
    GoodUpload Env.plain uploadConfig p helloUpload .sample := by
  refine ⟨plain_of_free rfl rfl hplace, fun _ _ _ => ?_, fun e he => ?_⟩
  · intro hx
    obtain ⟨q, hq, _⟩ := hx
    rw [hqueue] at hq
    cases hq
  · rw [hkept] at he
    cases he

/-- `hello` uploaded, deleted, and uploaded again once the queue is empty. -/
theorem reuploaded_hello_stays : ∃ u,
    reuploadedRun.server.getFileInfoFromLevelDB (fileSum Env.plain uploadConfig "hello".toList) = some u ∧
      u.md5 = fileSum Env.plain uploadConfig "hello".toList ∧
      reuploadedRun.server.disk.read (getFilePathByInfo uploadConfig u) = some "hello".toList := by
  obtain ⟨hplace, ⟨hfirst, hrecord, hfile⟩, ⟨hdeleted, hqueue, hkept, hplace'⟩, hagain, hapart⟩ := reuploadedRun_facts
  have h1 : DeleteStep Env.plain uploadConfig emptyRun helloRun :=
    .upload emptyRun helloUpload .sample (hello_good hplace rfl rfl)
  have hown : OwnFile Env.plain uploadConfig helloRun (removal "hello".toList) := by
    intro v hv _ _
    rw [hrecord] at hv
    obtain rfl := Option.some.inj hv
    exact ⟨"hello".toList, hfile, rfl⟩
  have h2 : DeleteStep Env.plain uploadConfig helloRun _ := .remove helloRun (removal "hello".toList) {} hown
  have h3 : DeleteStep Env.plain uploadConfig _ deletedRun := .consumerLog _
  have h4 : DeleteStep Env.plain uploadConfig deletedRun reuploadedRun :=
    .upload deletedRun helloUpload .sample (hello_good hplace' hqueue hkept)
  have hevents : reuploadedRun.events = [] ++ .answered helloRecord "hello".toList ::
      [.recorded helloRecord "hello".toList, .removed helloRecord, .answered helloRecord "hello".toList,
        .recorded helloRecord "hello".toList] := by
    rw [hagain, hdeleted, hfirst]
    rfl
  exact reuploads_stay rfl (.tail (.tail (.tail (.single h1) h2) h3) h4) hapart hevents (w := helloRecord)
    (by simp) rfl fun u hu => by cases hu

/-- `hello` deleted and uploaded again as `b.txt` while the deletion is in the log queue.
    The upload is answered with the record that then goes, and its file is removed. -/
theorem a_queued_delete_takes_the_next_upload :
    let p := ((helloRun.remove Env.plain uploadConfig (removal "hello".toList) {}).upload Env.plain uploadConfig
      (fileUpload "b.txt".toList [] "hello".toList) .sample).consumerLog Env.plain
    p.events = .answered helloRecord "hello".toList :: .removed helloRecord :: helloRun.events ∧
      p.server.queueFileLog = [] ∧
      p.server.getFileInfoFromLevelDB (fileSum Env.plain uploadConfig "hello".toList) = none ∧
      p.server.disk.read (getFilePathByInfo uploadConfig helloRecord) = none ∧
      p.server.disk.read "files/default/19700101/00/00/b.txt".toList = none := by
  decide +kernel

end GoFastdfs
