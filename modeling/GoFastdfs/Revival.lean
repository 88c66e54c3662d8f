/-
  GoFastdfs.Revival — deleting a record while it is being pushed (`postFileToPeer`,
  `ConsumerPostToPeer` and `ConsumerLog` of `fileserver.go`, `RemoveFile` of
  `http_remove.go`).

  A push keeps its own copy of a record. For each peer it looks whether the file is there,
  asks the peer for the digest, posts the record, and on success saves its copy under the
  digest; every one of these is a step of its own here, and the steps of any number of
  pushes, deletions and the log consumer interleave. A deletion queues its log entry, then
  takes the file away; the record goes when the entry is applied. Whatever else the server
  does meanwhile makes no record of the digest.

  Proved: once the deletion is applied the record stays away in every run where no push of
  it was between its look for the file and its save at that step, and none found a file at
  the record's place after it (`a_removed_record_stays_away`). Each of the two is needed:
  from the state after such a step the record can come back (`an_untimely_step_revives`).
  `a_push_under_way_revives_the_record` is the run in which it does.
-/

import GoFastdfs.Runs

namespace GoFastdfs

open Go (Str)

variable (E : Env) (c : Config)

/-! ## The steps of a push -/

inductive PostTurn where
  | next
  /-- The file is there. -/
  | found (peer : Str)
  /-- The size is filled in. -/
  | sized (peer : Str)
  /-- The peer said that it has the digest. -/
  | told (peer : Str)
  | asked (peer : Str)
  /-- `syncfile_info` was sent, with this result. -/
  | sent (peer : Str) (result : Option Str)
  deriving DecidableEq, Repr

structure Post where
  fileInfo : FileInfo
  left : List Str
  turn : PostTurn := .next
  deriving DecidableEq, Repr

namespace Post

def start (fi : FileInfo) : Post := { fileInfo := fi, left := c.peers }

/-- `SaveFileInfoToLevelDB` of the copy, with the peer added to its list. -/
def note (s : Server) (x : Post) (peer : Str) : Server × Post :=
  let r := s.notePeer E x.fileInfo peer
  (r.1, { x with fileInfo := r.2, turn := .next })

/-- The next step of a push; `a` is what the peer answers where it is asked. -/
def step (s : Server) (x : Post) (a : PeerAnswer) : Server × Post :=
  match x.turn with
  | .next =>
    match x.left with
    | [] => (s, x)
    | peer :: rest =>
      if x.fileInfo.peers.contains peer then (s, { x with left := rest })
      else if s.disk.fileExists (postPath c x.fileInfo) = false then (s, { x with left := rest })
      else (s, { x with left := rest, turn := .found peer })
  | .found peer =>
    match s.disk.stat (postPath c x.fileInfo) with
    | none => (s, { x with turn := .sized peer })
    | some n => (s, { x with fileInfo := Server.sized x.fileInfo n, turn := .sized peer })
  | .sized peer =>
    if x.fileInfo.offSet ≠ -2 ∧ c.enableDistinctFile = true ∧ a.exist.md5 ≠ [] then (s, { x with turn := .told peer })
    else (s, { x with turn := .asked peer })
  | .told peer => x.note E s peer
  | .asked peer => (s, { x with turn := .sent peer a.sync })
  | .sent peer result =>
    match result with
    | none =>
      let r := if x.fileInfo.retry ≤ c.retryCount then
          (s.appendToQueue { x.fileInfo with retry := x.fileInfo.retry + 1 },
            { x.fileInfo with retry := x.fileInfo.retry + 1 })
        else (s, x.fileInfo)
      (r.1.logLater r.2 CONST_Md5_ERROR_FILE_NAME, { x with fileInfo := r.2, turn := .next })
    | some result =>
      if Go.hasPrefix result "http://".toList then x.note E s peer
      else (s.logLater x.fileInfo CONST_Md5_ERROR_FILE_NAME, { x with turn := .next })

/-- The push may save its copy without looking for the file again. -/
def MaySave (x : Post) : Prop :=
  match x.turn with
  | .next | .sent _ none => False
  | .sent _ (some result) => Go.hasPrefix result "http://".toList = true
  | .found _ | .sized _ | .told _ | .asked _ => True

def Finds (s : Server) (x : Post) : Prop :=
  x.turn = .next ∧ ∃ peer rest, x.left = peer :: rest ∧ peer ∉ x.fileInfo.peers ∧
    s.disk.fileExists (postPath c x.fileInfo) = true

end Post

/-! ## Deletions and the consumer -/

namespace Server

def removeTarget (s : Server) (r : Request) (w : RemoveDraw) : Option FileInfo :=
  if w.isPeer = false ∨ (c.authUrl ≠ [] ∧ w.auth = false) ∨ (removeKey E c r).length < 32 then none else
  match s.getFileInfoFromLevelDB (removeKey E c r) with
  | none => none
  | some fi =>
    if fi.offSet < 0 ∧ fi.path ≠ [] ∧ s.disk.fileExists (getFilePathByInfo c fi) = true then some fi else none

/-- The digest whose record the next turn of `ConsumerLog` takes away. -/
def takesAway (s : Server) : Option Str :=
  match s.queueFileLog with
  | [] => none
  | e :: _ => if e.fileName = CONST_REMOME_Md5_FILE_NAME ∧ e.fileInfo.md5 ≠ [] then some e.fileInfo.md5 else none

end Server

structure Underway where
  server : Server
  posts : List Post := []
  /-- Deletions whose log entry is queued and whose file is still to be removed. -/
  removing : List FileInfo := []
  /-- The records whose deletion was answered with `remove success`. -/
  answered : List FileInfo := []
  /-- The digests whose deletion the log consumer has applied. -/
  applied : List Str := []

inductive Act where
  /-- The next step of the `i`-th push. -/
  | push (i : Nat) (a : PeerAnswer)
  /-- `ConsumerPostToPeer` takes an entry. -/
  | startPush
  /-- `RemoveFile` up to `SaveFileMd5Log`. -/
  | removeLog (r : Request) (w : RemoveDraw)
  /-- `os.Remove` of the `i`-th deletion, and its answer. -/
  | osRemove (i : Nat)
  | consumerLog
  /-- Anything else the server does. -/
  | other (s : Server)

def Act.Before : Act → Prop
  | .consumerLog | .other _ => False
  | _ => True

namespace Underway

def act (p : Underway) : Act → Underway
  | .push i a =>
    match p.posts[i]? with
    | none => p
    | some x =>
      let r := x.step E c p.server a
      { p with server := r.1, posts := p.posts.set i r.2 }
  | .startPush =>
    match p.server.queueToPeers with
    | [] => p
    | fi :: rest => { p with server := { p.server with queueToPeers := rest }, posts := p.posts ++ [.start c fi] }
  | .removeLog r w =>
    match p.server.removeTarget E c r w with
    | none => p
    | some fi => { p with server := p.server.logLater fi CONST_REMOME_Md5_FILE_NAME, removing := p.removing ++ [fi] }
  | .osRemove i =>
    match p.removing[i]? with
    | none => p
    | some fi =>
      match p.server.disk.remove (getFilePathByInfo c fi) with
      | none => { p with removing := p.removing.eraseIdx i }
      | some d =>
        { p with server := { p.server with disk := d }, removing := p.removing.eraseIdx i, answered := fi :: p.answered }
  | .consumerLog =>
    { p with server := p.server.consumerLog E, applied := p.server.takesAway.toList ++ p.applied }
  | .other s => { p with server := s }

end Underway

/-- The entry makes a record of the digest when it is applied. -/
def Records (q : FileLog) (m : Str) : Prop :=
  q.fileName = CONST_FILE_Md5_FILE_NAME ∧ (q.fileInfo.md5 = m ∨ E.md5 q.fileInfo.fullpath = m)

/-- Nothing is recorded under the digest, now or by a new entry of the log queue. -/
structure Elsewhere (m : Str) (s s' : Server) : Prop where
  ldb : s.getFileInfoFromLevelDB m = none → s'.getFileInfoFromLevelDB m = none
  queue : ∀ q ∈ s'.queueFileLog, q ∈ s.queueFileLog ∨ ¬ Records E q m

namespace Underway

def Allowed (m : Str) (p : Underway) : Act → Prop
  | .other s => Elsewhere E m p.server s
  | _ => True

/-- The deletion is applied while no push of the digest may still save its copy, and no push
    of it finds a file after that. -/
def Timely (m : Str) (p : Underway) : Act → Prop
  | .consumerLog => p.server.takesAway = some m → ∀ x ∈ p.posts, x.fileInfo.md5 = m → ¬ x.MaySave
  | .push i _ => m ∈ p.applied → ∀ x, p.posts[i]? = some x → x.fileInfo.md5 = m → ¬ x.Finds c p.server
  | _ => True

/-- Any step, in any order, that is neither an upload nor a sync of the digest. -/
inductive Step (m : Str) : Underway → Underway → Prop
  | act (p : Underway) (a : Act) : p.Allowed E m a → Step m p (p.act E c a)

inductive TimelyStep (m : Str) : Underway → Underway → Prop
  | act (p : Underway) (a : Act) : p.Allowed E m a → p.Timely c m a → TimelyStep m p (p.act E c a)

end Underway

/-! ## One step -/

section
variable {E c}

namespace Post

/-- What a step of a push does to the databases and the log queue, and what it may do next. -/
structure Stepped (E : Env) (c : Config) (s : Server) (x : Post) (r : Server × Post) : Prop where
  md5 : r.2.fileInfo.md5 = x.fileInfo.md5
  disk : r.1.disk = s.disk
  ldb : r.1.ldb = s.ldb ∨ x.MaySave ∧ ∃ v, r.1.ldb = s.ldb.put x.fileInfo.md5 (.record v)
  queue : ∀ q ∈ r.1.queueFileLog, q ∈ s.queueFileLog ∨ q.fileName = CONST_Md5_ERROR_FILE_NAME
  turn : r.2.MaySave → x.MaySave ∨ x.Finds c s

theorem Stepped.kept {s : Server} {x x' : Post} (hmd5 : x'.fileInfo.md5 = x.fileInfo.md5)
    (hturn : x'.MaySave → x.MaySave ∨ x.Finds c s) : Stepped E c s x (s, x') :=
  ⟨hmd5, rfl, Or.inl rfl, fun _ hq => Or.inl hq, hturn⟩

theorem Stepped.noted {s : Server} {x : Post} (hsave : x.MaySave) (peer : Str) : Stepped E c s x (x.note E s peer) :=
  ⟨rfl, rfl, Or.inr ⟨hsave, _, rfl⟩, fun _ hq => Or.inl hq, fun h => h.elim⟩

theorem Stepped.failed {s s' : Server} {x : Post} {fi : FileInfo} (hmd5 : fi.md5 = x.fileInfo.md5)
    (hdisk : s'.disk = s.disk) (hldb : s'.ldb = s.ldb) (hqueue : s'.queueFileLog = s.queueFileLog) :
    Stepped E c s x (s'.logLater fi CONST_Md5_ERROR_FILE_NAME, { x with fileInfo := fi, turn := .next }) := by
  refine ⟨hmd5, hdisk, Or.inl hldb, fun q hq => ?_, fun h => h.elim⟩
  rcases List.mem_append.mp hq with hq | hq
  · exact Or.inl (hqueue ▸ hq)
  · obtain rfl := List.mem_singleton.mp hq
    exact Or.inr rfl

theorem step_stepped (s : Server) (x : Post) (a : PeerAnswer) : Stepped E c s x (x.step E c s a) := by
  obtain ⟨fi, left, turn⟩ := x
  cases turn with
  | next =>
    cases left with
    | nil => exact .kept rfl fun h => h.elim
    | cons peer rest =>
      simp only [step]
      split
      · exact .kept rfl fun h => h.elim
      rename_i hpeer
      split
      · exact .kept rfl fun h => h.elim
      · rename_i hfile
        exact .kept rfl fun _ => Or.inr ⟨rfl, peer, rest, rfl, by simpa using hpeer, by simpa using hfile⟩
  | found peer =>
    simp only [step]
    split
    · exact .kept rfl fun _ => Or.inl trivial
    · exact .kept (Server.sized_md5 fi _) fun _ => Or.inl trivial
  | sized peer =>
    simp only [step]
    split
    · exact .kept rfl fun _ => Or.inl trivial
    · exact .kept rfl fun _ => Or.inl trivial
  | told peer =>
    have hsave : MaySave ⟨fi, left, .told peer⟩ := trivial
    exact .noted hsave peer
  | asked peer => exact .kept rfl fun _ => Or.inl trivial
  | sent peer result =>
    cases result with
    | none =>
      simp only [step]
      split
      · exact .failed rfl rfl rfl rfl
      · exact .failed rfl rfl rfl rfl
    | some result =>
      simp only [step]
      split
      · rename_i hhttp
        have hsave : MaySave ⟨fi, left, .sent peer (some result)⟩ := hhttp
        exact .noted hsave peer
      · exact .failed rfl rfl rfl rfl

end Post

/-! ### The whole push, with nothing in between -/

namespace Post

def Next (E : Env) (c : Config) (r r' : Server × Post) : Prop := ∃ a, r.2.step E c r.1 a = r'

/-- The steps for one peer are one turn of the loop. -/
theorem turn_steps (s : Server) (entry fi : FileInfo) (peer : Str) (rest : List Str) (a : PeerAnswer) :
    Relation.ReflTransGen (Next E c) (s, ⟨fi, peer :: rest, .next⟩)
      ((s.postToPeer E c entry fi peer a).1, ⟨(s.postToPeer E c entry fi peer a).2.1, rest, .next⟩) := by
  unfold Server.postToPeer
  split
  · rename_i hpeer
    exact .single ⟨a, by simp only [step, if_pos (List.contains_iff_mem.mpr hpeer)]⟩
  rename_i hpeer
  replace hpeer : ¬ fi.peers.contains peer = true := fun h => hpeer (List.contains_iff_mem.mp h)
  split
  · rename_i hstat
    have hfile : s.disk.fileExists (postPath c fi) = false := by simp [Disk.fileExists, hstat]
    exact .single ⟨a, by simp only [step, if_neg hpeer, if_pos hfile]⟩
  rename_i n hstat
  have hfile : ¬ s.disk.fileExists (postPath c fi) = false := by simp [Disk.fileExists, hstat]
  have hsized : (if fi.size = 0 then { fi with size := n.size } else fi) = Server.sized fi n := rfl
  rw [hsized]
  have hfound : Relation.ReflTransGen (Next E c) (s, ⟨fi, peer :: rest, .next⟩)
      (s, ⟨Server.sized fi n, rest, .sized peer⟩) := by
    refine .tail (.single (b := (s, ⟨fi, rest, .found peer⟩)) ⟨a, ?_⟩) ⟨a, ?_⟩
    · simp only [step, if_neg hpeer, if_neg hfile]
    · simp only [step, hstat]
  dsimp only
  split
  · rename_i htold
    refine .tail (hfound.tail (c := (s, ⟨Server.sized fi n, rest, .told peer⟩)) ⟨a, ?_⟩) ⟨a, ?_⟩
    · simp only [step, if_pos htold]
    · rfl
  rename_i hask
  have hsent : Relation.ReflTransGen (Next E c) (s, ⟨fi, peer :: rest, .next⟩)
      (s, ⟨Server.sized fi n, rest, .sent peer a.sync⟩) := by
    refine .tail (hfound.tail (c := (s, ⟨Server.sized fi n, rest, .asked peer⟩)) ⟨a, ?_⟩) ⟨a, ?_⟩
    · simp only [step, if_neg hask]
    · rfl
  refine .tail hsent ⟨a, ?_⟩
  cases a.sync with
  | none => rfl
  | some result =>
    simp only [step]
    split
    · rfl
    · rfl

theorem loop_steps (entry : FileInfo) (l : List (Str × PeerAnswer)) (s : Server) (fi : FileInfo) :
    Relation.ReflTransGen (Next E c) (s, ⟨fi, l.map (·.1), .next⟩)
      ((s.postLoop E c entry fi l).1, ⟨(s.postLoop E c entry fi l).2.1, [], .next⟩) := by
  induction l generalizing s fi with
  | nil => exact .refl
  | cons x l ih => exact (turn_steps s entry fi x.1 (l.map (·.1)) x.2).trans (ih _ _)

/-- The steps of a push from its start to its end, with nothing in between, are `postFileToPeer`. -/
theorem postFileToPeer_steps (s : Server) (fi : FileInfo) (answer : Nat → PeerAnswer) :
    Relation.ReflTransGen (Next E c) (s, start c fi)
      ((s.postFileToPeer E c fi answer).1, ⟨(s.postFileToPeer E c fi answer).2.1, [], .next⟩) := by
  have hloop := loop_steps (E := E) (c := c) fi (c.peers.zipIdx.map fun x => (x.1, answer x.2)) s fi
  have hpeers : (c.peers.zipIdx.map fun x => (x.1, answer x.2)).map (·.1) = c.peers := by
    rw [List.map_map]
    exact List.zipIdx_map_fst 0 c.peers
  rwa [hpeers] at hloop

end Post

/-- The steps of a deletion, with nothing in between, are `RemoveFile`. -/
theorem removeFile_acts (p : Underway) (hidle : p.removing = []) (r : Request) (w : RemoveDraw) :
    ((p.act E c (.removeLog r w)).act E c (.osRemove 0)).server = (p.server.removeFile E c r w).2.2 ∧
      ∀ fi, (p.server.removeFile E c r w).1 = .removed fi →
        ((p.act E c (.removeLog r w)).act E c (.osRemove 0)).answered = fi :: p.answered := by
  have hnone : p.server.removeTarget E c r w = none → (p.act E c (.removeLog r w)).act E c (.osRemove 0) = p := by
    intro h
    simp only [Underway.act, h, hidle, List.getElem?_nil]
  have hsome : ∀ fi, p.server.removeTarget E c r w = some fi → (p.act E c (.removeLog r w)).act E c (.osRemove 0) =
      match p.server.disk.remove (getFilePathByInfo c fi) with
      | none => { p with server := p.server.logLater fi CONST_REMOME_Md5_FILE_NAME }
      | some d => { p with server := { p.server with disk := d }.logLater fi CONST_REMOME_Md5_FILE_NAME,
                           answered := fi :: p.answered } := by
    intro fi h
    simp only [Underway.act, h, hidle, List.nil_append, List.getElem?_cons_zero, List.eraseIdx_cons_zero]
    rfl
  unfold Server.removeFile Server.removeFileOn
  by_cases hpeer : w.isPeer = false
  · rw [if_pos hpeer, hnone (if_pos (Or.inl hpeer))]
    exact ⟨rfl, fun fi h => by cases h⟩
  rw [if_neg hpeer]
  by_cases hauth : c.authUrl ≠ [] ∧ w.auth = false
  · rw [if_pos hauth, hnone (if_pos (Or.inr (Or.inl hauth)))]
    exact ⟨rfl, fun fi h => by cases h⟩
  rw [if_neg hauth]
  dsimp only
  by_cases hlen : (removeKey E c r).length < 32
  · rw [if_pos hlen, hnone (if_pos (Or.inr (Or.inr hlen)))]
    exact ⟨rfl, fun fi h => by cases h⟩
  rw [if_neg hlen]
  have htarget : p.server.removeTarget E c r w = match p.server.getFileInfoFromLevelDB (removeKey E c r) with
      | none => none
      | some fi =>
        if fi.offSet < 0 ∧ fi.path ≠ [] ∧ p.server.disk.fileExists (getFilePathByInfo c fi) = true then some fi
        else none := by
    unfold Server.removeTarget
    rw [if_neg]
    intro h
    exact h.elim hpeer fun h => h.elim hauth hlen
  cases hget : p.server.getFileInfoFromLevelDB (removeKey E c r) with
  | none =>
    rw [hnone (by rw [htarget, hget])]
    exact ⟨rfl, fun fi h => by cases h⟩
  | some fi =>
    simp only [hget] at htarget
    dsimp only
    by_cases hoff : 0 ≤ fi.offSet
    · rw [if_pos hoff, hnone (by rw [htarget, if_neg]; intro h; omega)]
      exact ⟨rfl, fun fi h => by cases h⟩
    rw [if_neg hoff]
    by_cases hfile : fi.path ≠ [] ∧ p.server.disk.fileExists (getFilePathByInfo c fi) = true
    · rw [if_pos hfile, hsome fi (by rw [htarget, if_pos]; exact ⟨by omega, hfile⟩)]
      cases p.server.disk.remove (getFilePathByInfo c fi) with
      | none => exact ⟨rfl, fun fi h => by cases h⟩
      | some d =>
        refine ⟨rfl, fun fi h => ?_⟩
        cases h
        rfl
    · rw [if_neg hfile, hnone (by rw [htarget, if_neg]; exact fun h => hfile h.2)]
      exact ⟨rfl, fun fi h => by cases h⟩

/-! ## Runs -/

theorem noRecord_iff {s : Server} {m : Str} :
    s.getFileInfoFromLevelDB m = none ↔ ∀ v, s.ldb.get m ≠ some (.record v) := by
  rw [Option.eq_none_iff_forall_ne_some]
  exact forall_congr' fun v => not_congr Server.getFileInfo_eq_some

theorem saveFileMd5Log_noRecord {s : Server} {q : FileLog} {m : Str} (hq : ¬ Records E q m)
    (h : s.getFileInfoFromLevelDB m = none ∨
      (q.fileName = CONST_REMOME_Md5_FILE_NAME ∧ q.fileInfo.md5 = m ∧ m ≠ [])) :
    (s.saveFileMd5Log E q.fileInfo q.fileName).getFileInfoFromLevelDB m = none := by
  rw [noRecord_iff]
  intro v hv
  rcases Server.saveFileMd5Log_record E hv with ⟨hname, _, hkey, _⟩ | ⟨hold, hstays⟩
  · exact hq ⟨hname, hkey.imp Eq.symm Eq.symm⟩
  · rcases h with h | ⟨hname, hmd5, hne⟩
    · exact noRecord_iff.mp h v hold
    · exact hstays hname (hmd5 ▸ hne) hmd5.symm

theorem takesAway_eq_some {s : Server} {m : Str} (h : s.takesAway = some m) :
    ∃ q rest, s.queueFileLog = q :: rest ∧ q.fileName = CONST_REMOME_Md5_FILE_NAME ∧ q.fileInfo.md5 = m ∧ m ≠ [] := by
  unfold Server.takesAway at h
  split at h
  · cases h
  · rename_i q rest hq
    split at h
    · rename_i hname
      obtain rfl := Option.some.inj h
      exact ⟨q, rest, hq, hname.1, rfl, hname.2⟩
    · cases h

theorem consumerLog_noRecord {s : Server} {m : Str} (hqueue : ∀ q ∈ s.queueFileLog, ¬ Records E q m)
    (h : s.getFileInfoFromLevelDB m = none ∨ s.takesAway = some m) :
    (s.consumerLog E).getFileInfoFromLevelDB m = none := by
  unfold Server.consumerLog
  split
  · rename_i hnil
    refine h.resolve_right fun h => ?_
    obtain ⟨q, rest, hq, _⟩ := takesAway_eq_some h
    rw [hnil] at hq
    cases hq
  · rename_i q rest hcons
    refine saveFileMd5Log_noRecord (hqueue q (hcons ▸ List.mem_cons_self)) (h.imp id fun h => ?_)
    obtain ⟨q', rest', hq, hmd5⟩ := takesAway_eq_some h
    rw [hcons] at hq
    obtain ⟨rfl, _⟩ := List.cons.inj hq
    exact hmd5

namespace Underway

structure Away (E : Env) (m : Str) (p : Underway) : Prop where
  queue : ∀ q ∈ p.server.queueFileLog, ¬ Records E q m
  record : m ∈ p.applied → p.server.getFileInfoFromLevelDB m = none
  posts : m ∈ p.applied → ∀ x ∈ p.posts, x.fileInfo.md5 = m → ¬ x.MaySave

variable {m : Str}

/-- A step of a push of a deleted record saves nothing. -/
theorem away_push {p : Underway} (h : p.Away E m) {i : Nat} {a : PeerAnswer} (htimely : p.Timely c m (.push i a)) :
    (p.act E c (.push i a)).Away E m := by
  simp only [act]
  split
  · exact h
  rename_i x hx
  have hmem : x ∈ p.posts := List.mem_of_getElem? hx
  have hstep := x.step_stepped (E := E) (c := c) p.server a
  generalize x.step E c p.server a = r at hstep ⊢
  refine ⟨fun q hq => ?_, fun hm => noRecord_iff.mpr fun v hv => ?_, fun hm y hy hmd5 hsave => ?_⟩
  · rcases hstep.queue q hq with hq | hname
    · exact h.queue q hq
    · intro hrec
      exact errorName_ne.1 (hname.symm.trans hrec.1)
  · have hnone := noRecord_iff.mp (h.record hm)
    rcases hstep.ldb with hldb | ⟨hsave, w, hldb⟩
    · exact hnone v (hldb ▸ hv)
    · have hne : m ≠ x.fileInfo.md5 := fun e => h.posts hm x hmem e.symm hsave
      rw [show r.1.ldb = _ from hldb, Store.get_put_ne _ _ hne] at hv
      exact hnone v hv
  · rcases List.mem_or_eq_of_mem_set hy with hy | rfl
    · exact h.posts hm y hy hmd5 hsave
    · have hx' : x.fileInfo.md5 = m := hstep.md5.symm.trans hmd5
      rcases hstep.turn hsave with hold | hfinds
      · exact h.posts hm x hmem hx' hold
      · exact htimely hm x hx hx' hfinds

/-- The deletion is applied while no push may save its copy. -/
theorem away_consumerLog {p : Underway} (h : p.Away E m) (htimely : p.Timely c m .consumerLog) :
    (p.act E c .consumerLog).Away E m := by
  have happlied : m ∈ p.server.takesAway.toList ++ p.applied → m ∈ p.applied ∨ p.server.takesAway = some m := by
    intro hm
    rcases List.mem_append.mp hm with hm | hm
    · exact Or.inr (Option.mem_toList.mp hm)
    · exact Or.inl hm
  refine ⟨fun q hq => h.queue q (Server.mem_of_mem_consumerLog E hq), fun hm => ?_, fun hm x hx hmd5 => ?_⟩
  · exact consumerLog_noRecord h.queue ((happlied hm).imp h.record id)
  · rcases happlied hm with hm | hm
    · exact h.posts hm x hx hmd5
    · exact htimely hm x hx hmd5

theorem away_step {p q : Underway} (h : p.Away E m) (hstep : TimelyStep E c m p q) : q.Away E m := by
  obtain ⟨a, hallowed, htimely⟩ := hstep
  cases a with
  | push i a => exact away_push h htimely
  | consumerLog => exact away_consumerLog h htimely
  | startPush =>
    simp only [act]
    split
    · exact h
    · refine ⟨h.queue, h.record, fun hm x hx hmd5 => ?_⟩
      rcases List.mem_append.mp hx with hx | hx
      · exact h.posts hm x hx hmd5
      · obtain rfl := List.mem_singleton.mp hx
        exact fun hsave => hsave
  | removeLog r w =>
    simp only [act]
    split
    · exact h
    · refine ⟨fun q hq => ?_, h.record, h.posts⟩
      rcases List.mem_append.mp hq with hq | hq
      · exact h.queue q hq
      · obtain rfl := List.mem_singleton.mp hq
        exact fun hrec => Server.logNames_ne.1 hrec.1
  | osRemove i =>
    simp only [act]
    split
    · exact h
    split
    · exact ⟨h.queue, h.record, h.posts⟩
    · exact ⟨h.queue, h.record, h.posts⟩
  | other s =>
    refine ⟨fun q hq => ?_, fun hm => hallowed.ldb (h.record hm), h.posts⟩
    exact (hallowed.queue q hq).elim (h.queue q) id

/-- Pushes, deletions and the log consumer from any state in which no queued log entry
    records the digest and no deletion of it has been applied yet: if every step is timely,
    there is no record of the digest in any state after the deletion is applied. -/
theorem a_removed_record_stays_away {p q : Underway} (hqueue : ∀ x ∈ p.server.queueFileLog, ¬ Records E x m)
    (hnew : m ∉ p.applied) (hrun : Relation.ReflTransGen (TimelyStep E c m) p q) (happlied : m ∈ q.applied) :
    q.server.getFileInfoFromLevelDB m = none := by
  have haway : q.Away E m := by
    clear happlied
    induction hrun with
    | refl => exact ⟨hqueue, fun h => absurd h hnew, fun h => absurd h hnew⟩
    | tail _ hstep ih => exact away_step ih hstep
  exact haway.record happlied

/-! ### Untimely steps -/

/-- From here the record can come back, with no further deletion. -/
def Revives (E : Env) (c : Config) (m : Str) (p : Underway) : Prop :=
  ∃ q, Relation.ReflTransGen (Step E c m) p q ∧ q.applied = p.applied ∧ q.server.getFileInfoFromLevelDB m ≠ none

theorem act_push {p : Underway} {i : Nat} {x : Post} (hx : p.posts[i]? = some x) (a : PeerAnswer) :
    p.act E c (.push i a) =
      { p with server := (x.step E c p.server a).1, posts := p.posts.set i (x.step E c p.server a).2 } := by
  simp only [act, hx]

theorem posts_act_push {p : Underway} {i : Nat} {x : Post} (hx : p.posts[i]? = some x) (a : PeerAnswer) :
    (p.act E c (.push i a)).posts[i]? = some (x.step E c p.server a).2 := by
  rw [act_push hx]
  exact List.getElem?_set_self (List.getElem?_eq_some_iff.mp hx).1

theorem Revives.push {p : Underway} {i : Nat} {x : Post} (hx : p.posts[i]? = some x) (a : PeerAnswer)
    (h : Revives E c m (p.act E c (.push i a))) : Revives E c m p := by
  obtain ⟨q, hrun, happlied, hrecord⟩ := h
  refine ⟨q, .head (.act p (.push i a) trivial) hrun, ?_, hrecord⟩
  rw [happlied, act_push hx]

theorem Revives.note {p : Underway} {i : Nat} {x : Post} (hx : p.posts[i]? = some x) (hmd5 : x.fileInfo.md5 = m)
    (a : PeerAnswer) (peer : Str) (hstep : x.step E c p.server a = x.note E p.server peer) :
    Revives E c m p := by
  refine ⟨p.act E c (.push i a), .single (.act p (.push i a) trivial), ?_, ?_⟩
  · rw [act_push hx]
  · intro hnone
    refine noRecord_iff.mp hnone ({ x.fileInfo with peers := x.fileInfo.peers ++ [peer] } : FileInfo).persist ?_
    rw [act_push hx, hstep, ← hmd5]
    exact Store.get_put_self p.server.ldb x.fileInfo.md5 _

def takes : PeerAnswer := { sync := some "http://".toList }

theorem revives_asked {p : Underway} {i : Nat} {fi : FileInfo} {left : List Str} {peer : Str}
    (hx : p.posts[i]? = some ⟨fi, left, .asked peer⟩) (hmd5 : fi.md5 = m) : Revives E c m p := by
  refine .push hx takes (.note (posts_act_push hx takes) hmd5 takes peer ?_)
  simp only [Post.step, takes]
  rw [if_pos (by decide)]

theorem revives_sized {p : Underway} {i : Nat} {fi : FileInfo} {left : List Str} {peer : Str}
    (hx : p.posts[i]? = some ⟨fi, left, .sized peer⟩) (hmd5 : fi.md5 = m) : Revives E c m p := by
  have hasked : (p.act E c (.push i takes)).posts[i]? = some ⟨fi, left, .asked peer⟩ := by
    rw [posts_act_push hx]
    simp only [Post.step, takes, ne_eq, not_true_eq_false, and_false, if_false]
  exact .push hx takes (revives_asked hasked hmd5)

theorem revives_found {p : Underway} {i : Nat} {fi : FileInfo} {left : List Str} {peer : Str}
    (hx : p.posts[i]? = some ⟨fi, left, .found peer⟩) (hmd5 : fi.md5 = m) : Revives E c m p := by
  refine .push hx takes ?_
  have hpost := posts_act_push (E := E) (c := c) hx takes
  simp only [Post.step] at hpost
  split at hpost
  · exact revives_sized hpost hmd5
  · exact revives_sized hpost ((Server.sized_md5 fi _).trans hmd5)

/-- A push that may save its copy brings the record back. -/
theorem revives_of_maySave {p : Underway} {i : Nat} {x : Post} (hx : p.posts[i]? = some x) (hmd5 : x.fileInfo.md5 = m)
    (hsave : x.MaySave) : Revives E c m p := by
  obtain ⟨fi, left, turn⟩ := x
  cases turn with
  | next => exact hsave.elim
  | found peer => exact revives_found hx hmd5
  | sized peer => exact revives_sized hx hmd5
  | told peer => exact .note hx hmd5 {} peer rfl
  | asked peer => exact revives_asked hx hmd5
  | sent peer result =>
    cases result with
    | none => exact hsave.elim
    | some result =>
      have hhttp : Go.hasPrefix result "http://".toList = true := hsave
      exact .note hx hmd5 {} peer (by simp only [Post.step, if_pos hhttp])

/-- From the state after an untimely step there are runs, with no further upload, sync or
    deletion, to a state where the digest's record is back. -/
theorem an_untimely_step_revives {p : Underway} {a : Act} (huntimely : ¬ p.Timely c m a) :
    ∃ q, Relation.ReflTransGen (Step E c m) (p.act E c a) q ∧ m ∈ q.applied ∧
      q.server.getFileInfoFromLevelDB m ≠ none := by
  have hback : m ∈ (p.act E c a).applied → Revives E c m (p.act E c a) →
      ∃ q, Relation.ReflTransGen (Step E c m) (p.act E c a) q ∧ m ∈ q.applied ∧
        q.server.getFileInfoFromLevelDB m ≠ none := by
    intro hm h
    obtain ⟨q, hrun, happlied, hrecord⟩ := h
    exact ⟨q, hrun, happlied ▸ hm, hrecord⟩
  cases a with
  | consumerLog =>
    simp only [Timely, not_forall, not_not] at huntimely
    obtain ⟨htakes, x, hx, hmd5, hsave⟩ := huntimely
    obtain ⟨i, hi⟩ := List.mem_iff_getElem?.mp hx
    refine hback ?_ (revives_of_maySave (x := x) (i := i) hi hmd5 hsave)
    exact List.mem_append_left _ (Option.mem_toList.mpr htakes)
  | push i a =>
    simp only [Timely, not_forall, not_not] at huntimely
    obtain ⟨hm, x, hx, hmd5, hnext, peer, rest, hleft, hpeer, hfile⟩ := huntimely
    obtain ⟨fi, left, turn⟩ := x
    obtain rfl : turn = .next := hnext
    obtain rfl : left = peer :: rest := hleft
    have hfound : (p.act E c (.push i a)).posts[i]? = some ⟨fi, rest, .found peer⟩ := by
      have hcontains : ¬ fi.peers.contains peer = true := fun h => hpeer (List.contains_iff_mem.mp h)
      rw [posts_act_push hx]
      simp only [Post.step, if_neg hcontains, hfile, Bool.true_eq_false, if_false]
    exact hback (by rw [act_push hx]; exact hm) (revives_found hfound hmd5)
  | startPush => exact (huntimely trivial).elim
  | removeLog r w => exact (huntimely trivial).elim
  | osRemove i => exact (huntimely trivial).elim
  | other s => exact (huntimely trivial).elim

/-! ## An upload -/

variable (E c)

def uploaded (s : Server) (r : UploadRequest) (w : UploadDraw) : Underway :=
  let u := s.upload E c r w
  { server := u.2, posts := (u.1.recorded.map (Post.start c)).toList }

variable {E c}

theorem uploaded_queue (s : Server) (r : UploadRequest) (w : UploadDraw) :
    (uploaded E c s r w).server.queueFileLog = s.queueFileLog := by
  unfold uploaded
  rcases upload_databases (E := E) (c := c) s r w with ⟨d, domain, _, hs⟩ | ⟨fi, d, domain, _, _, _, _, hs⟩
  · simp only [hs]
  · simp only [hs]
    exact Server.saveFileMd5Log_queue E _ fi _

theorem act_applied (p : Underway) {a : Act} (h : a.Before) : (p.act E c a).applied = p.applied := by
  cases a with
  | push i a =>
    simp only [act]
    split <;> rfl
  | startPush =>
    simp only [act]
    split <;> rfl
  | removeLog r w =>
    simp only [act]
    split <;> rfl
  | osRemove i =>
    simp only [act]
    split
    · rfl
    split <;> rfl
  | consumerLog => exact h.elim
  | other s => exact h.elim

theorem steps_of_timely {p q : Underway} (h : Relation.ReflTransGen (TimelyStep E c m) p q) :
    Relation.ReflTransGen (Step E c m) p q := by
  induction h with
  | refl => exact .refl
  | tail _ hstep ih =>
    obtain ⟨a, hallowed, _⟩ := hstep
    exact ih.tail (.act _ a hallowed)

theorem timely_before (l : List Act) (h : ∀ a ∈ l, a.Before) {p : Underway} (hnew : m ∉ p.applied) :
    Relation.ReflTransGen (TimelyStep E c m) p (l.foldl (act E c) p) ∧ (l.foldl (act E c) p).applied = p.applied := by
  induction l generalizing p with
  | nil => exact ⟨.refl, rfl⟩
  | cons a l ih =>
    have ha := h a List.mem_cons_self
    have happlied := act_applied (E := E) (c := c) p ha
    have hstep : TimelyStep E c m p (p.act E c a) := by
      cases a with
      | push i a => exact .act p _ trivial fun hm => absurd hm hnew
      | startPush => exact .act p _ trivial trivial
      | removeLog r w => exact .act p _ trivial trivial
      | osRemove i => exact .act p _ trivial trivial
      | consumerLog => exact ha.elim
      | other s => exact ha.elim
    obtain ⟨hrun, hsame⟩ := ih (fun b hb => h b (List.mem_cons_of_mem a hb)) (happlied ▸ hnew)
    exact ⟨.head hstep hrun, hsame.trans happlied⟩

end Underway

end

/-! ## Fixed inputs -/

def pushConfig : Config := { uploadConfig with peers := [Server.peerB] }

def helloPosted : Underway := Underway.uploaded Env.plain pushConfig emptyRun.server helloUpload .sample

namespace Underway

def pushedThenDeleted : List Act :=
  [.push 0 takes, .push 0 takes, .push 0 takes, .push 0 takes, .push 0 takes,
    .removeLog (removal "hello".toList) {}, .osRemove 0]

def deletedWhilePushed : List Act :=
  [.push 0 takes, .push 0 takes, .push 0 takes, .removeLog (removal "hello".toList) {}, .osRemove 0]

/-- `hello` is deleted after it was pushed: its record stays away. -/
theorem a_pushed_record_stays_away :
    ((pushedThenDeleted.foldl (act Env.plain pushConfig) helloPosted).act Env.plain
      pushConfig .consumerLog).server.getFileInfoFromLevelDB (Go.md5 "hello".toList) = none := by
  have hbefore : ∀ a ∈ pushedThenDeleted, a.Before := by simp [pushedThenDeleted, Act.Before]
  have hrun := (timely_before (E := Env.plain) (c := pushConfig) (m := Go.md5 "hello".toList) pushedThenDeleted hbefore
    (p := helloPosted) List.not_mem_nil).1
  refine a_removed_record_stays_away (p := helloPosted) (fun x hx => ?_) List.not_mem_nil
    (hrun.tail (.act _ .consumerLog trivial fun _ x hx _ => ?_)) ?_
  · rw [helloPosted, uploaded_queue] at hx
    cases hx
  · have hposts : (pushedThenDeleted.foldl (act Env.plain pushConfig) helloPosted).posts.map (·.turn) = [.next] := by
      decide +kernel
    have hturn := List.mem_map_of_mem (f := (·.turn)) hx
    rw [hposts, List.mem_singleton] at hturn
    simp [Post.MaySave, hturn]
  · decide +kernel

/-- The peer takes the record after the deletion is answered and applied: the record is back,
    without its file. -/
theorem a_push_under_way_revives_the_record :
    (∀ x ∈ helloPosted.server.queueFileLog, ¬ Records Env.plain x (Go.md5 "hello".toList)) ∧
    ∃ p q, Relation.ReflTransGen (Step Env.plain pushConfig (Go.md5 "hello".toList)) helloPosted p ∧
      helloRecord ∈ p.answered ∧ Go.md5 "hello".toList ∈ p.applied ∧
      Relation.ReflTransGen (Step Env.plain pushConfig (Go.md5 "hello".toList)) p q ∧
      q.server.getFileInfoFromLevelDB (Go.md5 "hello".toList) = some { helloRecord with peers := [[], Server.peerB] } ∧
      q.server.disk.fileExists (getFilePathByInfo pushConfig helloRecord) = false := by
  refine ⟨?_, (deletedWhilePushed.foldl (act Env.plain pushConfig) helloPosted).act Env.plain pushConfig .consumerLog,
    _, .tail (b := deletedWhilePushed.foldl (act Env.plain pushConfig) helloPosted) ?_ (.act _ .consumerLog trivial), ?_, ?_,
    .tail (.single (.act _ (.push 0 takes) trivial)) (.act _ (.push 0 takes) trivial), ?_, ?_⟩
  · intro x hx
    rw [helloPosted, uploaded_queue] at hx
    cases hx
  · have hbefore : ∀ a ∈ deletedWhilePushed, a.Before := by simp [deletedWhilePushed, Act.Before]
    exact steps_of_timely (timely_before (p := helloPosted) deletedWhilePushed hbefore List.not_mem_nil).1
  · decide +kernel
  · decide +kernel
  · decide +kernel
  · decide +kernel

end Underway

end GoFastdfs
