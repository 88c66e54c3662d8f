/-
  GoFastdfs.Sweep — what the clean-up of abandoned downloads removes
  (`RemoveDownloading` of `http_remove.go`, `DownloadFromPeer`).

  A download puts the key `downloading_<start>_<path>` before its request and deletes it when
  it is over; a crash leaves the key, and nothing else ever deletes it. A turn of the sweep
  goes over the keys as they were when it began. Of a key older than ten minutes whose path
  has no `_` it removes the file at the path, which is the place of the finished file, not of
  the temporary one.

  Here downloads begin, get their answers and end in any order, one at a time for a path, and
  a crash may come at any point; a turn of the sweep is one step for each key, and anything
  may happen to the files in between. `placed` names the paths whose latest download ended
  with the rename.

  Proved: over every run, no file of a placed path is removed by the sweep if at each of its
  removals the downloads that had not ended when the turn began and are older than ten minutes
  have no `_` in their path or spare the placed files (`sweep_spares_placed`).
-/

import GoFastdfs.Go.Path
import GoFastdfs.Redelivery

namespace GoFastdfs

open Go (Str)

variable (E : Env) (c : Config)

/-! ## The call in its phases -/

namespace Server

def beginDownload (s : Server) (fi : FileInfo) (start : Int) : Server :=
  { s with
    disk := if s.disk.fileExists fi.path then s.disk else s.disk.mkdirAll (c.dockerDir ++ fi.path)
    ldb := s.ldb.put (downloadKey start (getFilePathByInfo c fi)) .empty }

def answerDownload (s : Server) (fi : FileInfo) (w : Download) : Server × FetchEnd :=
  if fi.offSet = -2 then s.downloadMigrated E c fi w
  else if 0 ≤ fi.offSet then s.downloadSmall c fi w
  else s.downloadNormal c fi w

def endDownload (s : Server) (key : Str) : Server := { s with ldb := s.ldb.del key }

theorem downloadRequest_phases (s : Server) (fi : FileInfo) (w : Download) :
    s.downloadRequest E c fi w =
      ((((s.beginDownload c fi w.start).answerDownload E c fi w).1.endDownload
        (downloadKey w.start (getFilePathByInfo c fi))),
        ((s.beginDownload c fi w.start).answerDownload E c fi w).2) :=
  rfl

/-- The start and the path that the sweep reads off a key. -/
def sweepTarget (key : Str) : Option (Int × Str) :=
  match key.splitOn '_' with
  | [_, stamp, fpath] =>
    match Go.parseInt stamp with
    | (t, true) => some (t, fpath)
    | _ => none
  | _ => none

def sweepKey (s : Server) (key : Str) (now : Int) : Server :=
  match sweepTarget key with
  | some (t, fpath) => if 600 < now - t then s.osRemove (c.dockerDir ++ fpath) else s
  | none => s

def downloadingKeys (s : Server) : List Str := (s.ldb.scan (Go.hasPrefix · "downloading_".toList)).map (·.1)

theorem removeDownloading_eq (s : Server) (now : Int) :
    s.removeDownloading c now = s.downloadingKeys.foldl (fun s key => s.sweepKey c key now) s := by
  unfold removeDownloading downloadingKeys
  congr 1
  funext s key
  unfold sweepKey sweepTarget
  rcases key.splitOn '_' with _ | ⟨_, _ | ⟨stamp, _ | ⟨fpath, _ | ⟨_, _⟩⟩⟩⟩
  · rfl
  · rfl
  · rfl
  · dsimp only
    rcases Go.parseInt stamp with ⟨t, _ | _⟩
    · rfl
    · rfl
  · rfl

end Server

/-! ## Runs -/

structure Job where
  fi : FileInfo
  start : Int

def Job.path (j : Job) : Str := getFilePathByInfo c j.fi

def Job.key (j : Job) : Str := Server.downloadKey j.start (j.path c)

structure Sweeping where
  server : Server
  /-- The downloads between their key and its deletion. -/
  active : List Job
  /-- Those that a crash cut off there. -/
  left : List Job
  placed : List Str
  /-- The keys that the sweep's turn still has to look at. -/
  keys : List Str
  /-- The downloads that had not ended when the turn began. -/
  seen : List Job
  /-- The records whose digest is one of the turn's keys. -/
  records : List Str
  /-- The placed paths whose file the sweep removed. -/
  lost : List Str

namespace Sweeping

def start (d : Disk) : Sweeping := ⟨Server.fresh d, [], [], [], [], [], [], []⟩

def isFile (d : Disk) (path : Str) : Bool := (d.read path).isSome

def begin (p : Sweeping) (fi : FileInfo) (start : Int) : Sweeping :=
  { p with
    server := p.server.beginDownload c fi start
    active := ⟨fi, start⟩ :: p.active
    placed := p.placed.filter (· ≠ getFilePathByInfo c fi) }

/-- The answer of an active download. A merged file is not renamed to its path. -/
def answer (p : Sweeping) (j : Job) (w : Download) : Sweeping :=
  let r := p.server.answerDownload E c j.fi w
  { p with
    server := r.1
    placed := if r.2 = .stored ∧ j.fi.offSet < 0 then j.path c :: p.placed else p.placed }

/-- The key goes with every download that has the same. -/
def finish (p : Sweeping) (j : Job) : Sweeping :=
  { p with
    server := p.server.endDownload (j.key c)
    active := p.active.filter fun i => i.key c ≠ j.key c
    left := p.left.filter fun i => i.key c ≠ j.key c }

/-- A crash, also of the sweep, and the restart. -/
def crash (p : Sweeping) : Sweeping :=
  { p with
    server := p.server.restart
    active := []
    left := p.active ++ p.left
    keys := [] }

def turn (p : Sweeping) : Sweeping :=
  { p with
    keys := p.server.downloadingKeys
    seen := p.active ++ p.left
    records := p.server.downloadingKeys.filter fun k => (p.server.getFileInfoFromLevelDB k).isSome }

def sweep (p : Sweeping) (now : Int) : Sweeping :=
  match p.keys with
  | [] => p
  | key :: keys =>
    let s := p.server.sweepKey c key now
    { p with
      server := s
      keys := keys
      lost := p.placed.filter (fun q => isFile p.server.disk q && !isFile s.disk q) ++ p.lost }

/-- A server on which every bookkeeping key was there before. -/
def with_ (p : Sweeping) (s : Server) : Sweeping := { p with server := s }

end Sweeping

/-- A step, with the time of the sweep at a key. -/
inductive SweepStep : Sweeping → Option Int → Sweeping → Prop
  /-- A download begins; its path's lock is free. -/
  | begin (p : Sweeping) (fi : FileInfo) (start : Int) : (∀ j ∈ p.active, j.path c ≠ getFilePathByInfo c fi) →
      SweepStep p none (p.begin c fi start)
  | answer (p : Sweeping) (j : Job) (w : Download) : j ∈ p.active → SweepStep p none (p.answer E c j w)
  | finish (p : Sweeping) (j : Job) : j ∈ p.active → SweepStep p none (p.finish c j)
  | crash (p : Sweeping) : SweepStep p none p.crash
  | turn (p : Sweeping) : SweepStep p none p.turn
  | sweep (p : Sweeping) (now : Int) : SweepStep p (some now) (p.sweep c now)
  /-- Anything else that puts no bookkeeping key: the removal ahead of a request, a part of a
      temporary file, uploads, deletions, log entries. -/
  | other (p : Sweeping) (s : Server) :
      (∀ k, s.ldb.get k = some .empty → p.server.ldb.get k = some .empty) → SweepStep p none (p.with_ s)

/-- Removing the path takes no placed file. -/
def SparesPlaced (p : Sweeping) (path : Str) : Prop :=
  ∀ q ∈ p.placed, Sweeping.isFile p.server.disk q = true → p.server.disk.Spares (c.dockerDir ++ path) q

/-- What is asked of the moment at which the sweep looks at a key. -/
structure Calm (p : Sweeping) (now : Int) : Prop where
  downloads : ∀ j ∈ p.seen, 600 < now - j.start → '_' ∉ j.path c → SparesPlaced c p (j.path c)
  records : ∀ key ∈ p.records, ∀ t path, Server.sweepTarget key = some (t, path) → 600 < now - t → SparesPlaced c p path

/-- A step at which the sweep, if it is the sweep's, finds things calm. -/
def CalmStep (p p' : Sweeping) : Prop := ∃ l, SweepStep E c p l p' ∧ ∀ now, l = some now → Calm c p now

section
variable {E c}

/-! ## Keys -/

theorem sweepTarget_key {start t : Int} {path fpath : Str}
    (h : Server.sweepTarget (Server.downloadKey start path) = some (t, fpath)) : t = start ∧ fpath = path ∧ '_' ∉ path := by
  have hstamp : '_' ∉ Go.itoa start := Go.notMem_itoa_int (by decide) (by decide) start
  have hsplit : (Server.downloadKey start path).splitOn '_' = "downloading".toList :: Go.itoa start :: path.splitOn '_' :=
    Server.splitOn_logKey (d := "downloading".toList) (by decide) hstamp
  unfold Server.sweepTarget at h
  rw [hsplit] at h
  split at h
  · rename_i stamp fpath' hkey
    obtain ⟨rfl, hpieces⟩ := List.cons.inj (List.cons.inj hkey).2
    split at h
    · rename_i t' ht
      obtain ⟨rfl, rfl⟩ := Prod.mk.inj (Option.some.inj h)
      have hpath : path = fpath' := by
        have hjoin : ['_'].intercalate (path.splitOn '_') = path := List.intercalate_splitOn '_'
        rw [hpieces] at hjoin
        simpa using hjoin.symm
      refine ⟨Go.eq_of_parseInt_itoa ht, hpath.symm, Go.notMem_of_mem_splitOn (s := path) ?_⟩
      rw [hpieces, hpath]
      exact List.mem_singleton_self _
    · cases h
  · cases h

/-! ## One step -/

structure SweepInv (c : Config) (p : Sweeping) : Prop where
  /-- Every bookkeeping key is that of a download under way or cut off. -/
  keys : ∀ k, p.server.ldb.get k = some .empty → ∃ j ∈ p.active ++ p.left, k = j.key c
  turn : ∀ k ∈ p.keys, (∃ j ∈ p.seen, k = j.key c) ∨ k ∈ p.records
  lost : p.lost = []

theorem saveFileInfo_keys {s : Server} {key k : Str} {fi : FileInfo}
    (h : (s.saveFileInfoToLevelDB E key fi .ldb).ldb.get k = some .empty) : s.ldb.get k = some .empty := by
  simp only [Server.saveFileInfoToLevelDB, Store.get_put] at h
  split at h
  · cases h
  · exact h

theorem answerDownload_keys {s : Server} {fi : FileInfo} {w : Download} {k : Str}
    (h : (s.answerDownload E c fi w).1.ldb.get k = some .empty) : s.ldb.get k = some .empty := by
  have hanswered : Server.Answered E c s fi (s.answerDownload E c fi w) := Server.answered s fi w
  generalize s.answerDownload E c fi w = r at h hanswered
  cases hanswered with
  | present | recorded => exact saveFileInfo_keys (E := E) h
  | requeued | failed | logged => exact h

theorem sweepKey_ldb (s : Server) (key : Str) (now : Int) : (s.sweepKey c key now).ldb = s.ldb := by
  unfold Server.sweepKey
  split
  · split <;> rfl
  · rfl

/-- The sweep at a key keeps the placed files if its target spares them. -/
theorem sweepKey_file {p : Sweeping} {key : Str} {now : Int}
    (h : ∀ t path, Server.sweepTarget key = some (t, path) → 600 < now - t → SparesPlaced c p path) {q : Str}
    (hq : q ∈ p.placed) (hfile : Sweeping.isFile p.server.disk q = true) :
    Sweeping.isFile (p.server.sweepKey c key now).disk q = true := by
  unfold Server.sweepKey
  split
  · rename_i t path htarget
    split
    · rename_i hold
      have hstat := (h t path htarget hold q hq hfile).stat
      simp only [Sweeping.isFile, Disk.read, Server.osRemove] at hfile ⊢
      rw [hstat]
      exact hfile
    · exact hfile
  · exact hfile

theorem sweepInv_start (d : Disk) : SweepInv c (Sweeping.start d) where
  keys := fun _ h => by cases h
  turn := fun _ h => by cases h
  lost := rfl

theorem mem_downloadingKeys {s : Server} {k : Str} (h : k ∈ s.downloadingKeys) :
    s.ldb.get k = some .empty ∨ (s.getFileInfoFromLevelDB k).isSome = true := by
  obtain ⟨⟨k, v⟩, hscan, rfl⟩ := List.mem_map.mp h
  have hget := (Store.mem_scan.mp hscan).1
  cases v with
  | empty => exact Or.inl hget
  | record fi => exact Or.inr (Option.isSome_iff_exists.mpr ⟨fi, Server.getFileInfo_eq_some.mpr hget⟩)

theorem sweepInv_step {p p' : Sweeping} (h : CalmStep E c p p') (hinv : SweepInv c p) : SweepInv c p' := by
  obtain ⟨l, hstep, hcalm⟩ := h
  cases hstep with
  | begin fi start hlock =>
    refine ⟨fun k hk => ?_, hinv.turn, hinv.lost⟩
    by_cases hkey : k = Server.downloadKey start (getFilePathByInfo c fi)
    · exact ⟨⟨fi, start⟩, List.mem_append_left _ List.mem_cons_self, hkey⟩
    · obtain ⟨j, hj, hjk⟩ := hinv.keys k ((Store.get_put_ne _ _ hkey).symm.trans hk)
      exact ⟨j, List.mem_cons_of_mem _ hj, hjk⟩
  | answer j w hj =>
    exact ⟨fun k hk => hinv.keys k (answerDownload_keys hk), hinv.turn, hinv.lost⟩
  | finish j hj =>
    refine ⟨fun k hk => ?_, hinv.turn, hinv.lost⟩
    -- the jobs that go with `j` are those whose key is deleted
    obtain ⟨hne, hk⟩ := Store.get_del_some hk
    obtain ⟨i, hi, rfl⟩ := hinv.keys k hk
    refine ⟨i, ?_, rfl⟩
    simp only [Sweeping.finish, ← List.filter_append]
    exact List.mem_filter.mpr ⟨hi, decide_eq_true hne⟩
  | crash =>
    refine ⟨fun k hk => ?_, fun k hk => absurd hk List.not_mem_nil, hinv.lost⟩
    obtain ⟨j, hj, hjk⟩ := hinv.keys k hk
    exact ⟨j, hj, hjk⟩
  | turn =>
    refine ⟨hinv.keys, fun k hk => ?_, hinv.lost⟩
    rcases mem_downloadingKeys hk with hempty | hrecord
    · exact Or.inl (hinv.keys k hempty)
    · exact Or.inr (List.mem_filter.mpr ⟨hk, hrecord⟩)
  | sweep now =>
    have hcalm := hcalm now rfl
    unfold Sweeping.sweep
    cases hkeys : p.keys with
    | nil => exact ⟨hinv.keys, hinv.turn, hinv.lost⟩
    | cons key keys =>
      have hspares : ∀ t path, Server.sweepTarget key = some (t, path) → 600 < now - t → SparesPlaced c p path := by
        intro t path htarget hold
        rcases hinv.turn key (hkeys ▸ List.mem_cons_self) with ⟨j, hj, rfl⟩ | hrecord
        · obtain ⟨rfl, rfl, hplain⟩ := sweepTarget_key htarget
          exact hcalm.downloads j hj hold hplain
        · exact hcalm.records key hrecord t path htarget hold
      refine ⟨fun k hk => hinv.keys k ?_, fun k hk => hinv.turn k (hkeys ▸ List.mem_cons_of_mem _ hk), ?_⟩
      · dsimp only at hk
        rwa [sweepKey_ldb] at hk
      · dsimp only
        rw [hinv.lost, List.append_nil, List.filter_eq_nil_iff]
        intro q hq hlost
        obtain ⟨hfile, hgone⟩ := Bool.and_eq_true_iff.mp hlost
        rw [sweepKey_file hspares hq hfile] at hgone
        cases hgone
  | other s hs => exact ⟨fun k hk => hinv.keys k (hs k hk), hinv.turn, hinv.lost⟩

/-- The sweep removes no file of a path whose latest download ended with the rename, in any run in
    which it finds things calm. -/
theorem sweep_spares_placed {d : Disk} {p : Sweeping} (h : Relation.ReflTransGen (CalmStep E c) (Sweeping.start d) p) :
    p.lost = [] := by
  have hinv : SweepInv c p := by
    induction h with
    | refl => exact sweepInv_start d
    | tail _ hs ih => exact sweepInv_step hs ih
  exact hinv.lost

/-! ## The calls as runs -/

theorem postToPeer_keys {entry fi : FileInfo} {s : Server} {peer : Str} {a : PeerAnswer} {k : Str}
    (h : (s.postToPeer E c entry fi peer a).1.ldb.get k = some .empty) : s.ldb.get k = some .empty := by
  have hout := Server.postToPeer_outcome (E := E) (c := c) s entry fi peer a
  generalize s.postToPeer E c entry fi peer a = r at h hout
  cases hout with
  | passed => exact h
  | noted => exact saveFileInfo_keys (E := E) h
  | failed => exact h

theorem postLoop_keys {entry : FileInfo} {k : Str} : ∀ (l : List (Str × PeerAnswer)) (s : Server) (fi : FileInfo),
    (Server.postLoop E c entry s fi l).1.ldb.get k = some .empty → s.ldb.get k = some .empty
  | [], _, _, h => h
  | (_, _) :: rest, _, _, h => postToPeer_keys (postLoop_keys rest _ _ h)

/-- A call of `DownloadFromPeer` whose path is not locked. -/
theorem downloadFromPeer_steps (p : Sweeping) (fi : FileInfo) (w : Download)
    (hlock : ∀ j ∈ p.active, j.path c ≠ getFilePathByInfo c fi) :
    ∃ p', Relation.ReflTransGen (fun a b => ∃ l, SweepStep E c a l b) p p' ∧
      p'.server = (p.server.downloadFromPeer E c fi w).1 := by
  have hrequest : ∀ (q : Sweeping) (fi' : FileInfo), (∀ j ∈ q.active, j.path c ≠ getFilePathByInfo c fi') →
      ∃ p', Relation.ReflTransGen (fun a b => ∃ l, SweepStep E c a l b) q p' ∧
        p'.server = (q.server.downloadRequest E c fi' w).1 := by
    intro q fi' hfree
    have hmem : (⟨fi', w.start⟩ : Job) ∈ (q.begin c fi' w.start).active := List.mem_cons_self
    refine ⟨((q.begin c fi' w.start).answer E c ⟨fi', w.start⟩ w).finish c ⟨fi', w.start⟩, ?_, rfl⟩
    exact .tail (.tail (.single ⟨_, .begin q fi' w.start hfree⟩) ⟨_, .answer _ _ w hmem⟩) ⟨_, .finish _ _ hmem⟩
  unfold Server.downloadFromPeer
  split
  · exact ⟨p, .refl, rfl⟩
  split
  · exact ⟨p, .refl, rfl⟩
  dsimp only
  split
  · exact ⟨p, .refl, rfl⟩
  split
  · split
    · exact hrequest p _ hlock
    · split
      · exact ⟨p.with_ _, .single ⟨_, .other p _ fun k hk => postLoop_keys _ _ _ hk⟩, rfl⟩
      · obtain ⟨p', hsteps, hserver⟩ := hrequest (p.with_ (p.server.osRemove (getFilePathByInfo c fi)))
          { fi with retry := fi.retry + 1 } hlock
        exact ⟨p', .head ⟨_, .other p (p.server.osRemove (getFilePathByInfo c fi)) fun k hk => hk⟩ hsteps, hserver⟩
  · exact hrequest p _ hlock

/-- A turn of the sweep that nothing interrupts. -/
theorem removeDownloading_steps (p : Sweeping) (now : Int) :
    ∃ p', Relation.ReflTransGen (fun a b => ∃ l, SweepStep E c a l b) p p' ∧
      p'.server = p.server.removeDownloading c now := by
  have hkeys : ∀ (keys : List Str) (q : Sweeping), q.keys = keys →
      ∃ p', Relation.ReflTransGen (fun a b => ∃ l, SweepStep E c a l b) q p' ∧
        p'.server = keys.foldl (fun s key => s.sweepKey c key now) q.server := by
    intro keys
    induction keys with
    | nil => exact fun q _ => ⟨q, .refl, rfl⟩
    | cons key keys ih =>
      intro q hq
      have hnext : (q.sweep c now).keys = keys ∧ (q.sweep c now).server = q.server.sweepKey c key now := by
        unfold Sweeping.sweep
        rw [hq]
        exact ⟨rfl, rfl⟩
      obtain ⟨p', hsteps, hserver⟩ := ih (q.sweep c now) hnext.1
      refine ⟨p', .head ⟨_, .sweep q now⟩ hsteps, ?_⟩
      rw [hserver, hnext.2, List.foldl_cons]
  obtain ⟨p', hsteps, hserver⟩ := hkeys p.server.downloadingKeys p.turn rfl
  exact ⟨p', .head ⟨_, .turn p⟩ hsteps, hserver.trans (Server.removeDownloading_eq c _ now).symm⟩

end

/-! ## Fixed inputs -/

def cutJob : Job := ⟨helloRecord, 0⟩

def nextJob : Job := ⟨helloRecord, 10⟩

def helloSweeping : Sweeping :=
  (((((Sweeping.start { cwd := [], nodes := ∅ }).begin uploadConfig cutJob.fi cutJob.start).crash.begin uploadConfig
    nextJob.fi nextJob.start).answer Env.plain uploadConfig nextJob helloServed).finish uploadConfig nextJob).turn

theorem helloSweeping_run {R : Sweeping → Sweeping → Prop}
    (hR : ∀ p p', SweepStep Env.plain uploadConfig p none p' → R p p') :
    Relation.ReflTransGen R (Sweeping.start { cwd := [], nodes := ∅ }) helloSweeping := by
  have hfree : ∀ p : Sweeping, p.active = [] → ∀ j ∈ p.active,
      j.path uploadConfig ≠ getFilePathByInfo uploadConfig helloRecord :=
    fun p h j hj => absurd (h ▸ hj) List.not_mem_nil
  have hbegin := hR _ _ (.begin (E := Env.plain) _ cutJob.fi cutJob.start
      (hfree (Sweeping.start { cwd := [], nodes := ∅ }) rfl))
  refine .tail (.tail (.tail (.tail (.tail (.single hbegin) (hR _ _ (.crash _)))
    (hR _ _ (.begin _ nextJob.fi nextJob.start (hfree _ rfl)))) (hR _ _ (.answer _ nextJob helloServed ?_)))
    (hR _ _ (.finish _ nextJob ?_))) (hR _ _ (.turn _))
  · exact List.mem_cons_self
  · exact List.mem_cons_self

/-- The key of the download that was cut off costs the file of the one that was not. -/
theorem a_completed_download_is_swept :
    ∃ p, Relation.ReflTransGen (fun a b => ∃ l, SweepStep Env.plain uploadConfig a l b)
        (Sweeping.start { cwd := [], nodes := ∅ }) p ∧
      p.lost = [getFilePathByInfo uploadConfig helloRecord] :=
  ⟨helloSweeping.sweep uploadConfig 1000, .tail (helloSweeping_run fun _ _ h => ⟨_, h⟩) ⟨_, .sweep _ 1000⟩,
    by decide +kernel⟩

theorem a_young_key_costs_nothing : (helloSweeping.sweep uploadConfig 500).lost = [] := by
  refine sweep_spares_placed (E := Env.plain) (c := uploadConfig) (d := { cwd := [], nodes := ∅ })
    (.tail (helloSweeping_run fun _ _ h => ⟨_, h, fun _ hl => by cases hl⟩) ⟨_, .sweep _ 500, ?_⟩)
  intro now hnow
  obtain rfl := Option.some.inj hnow
  constructor
  · intro j hj hold
    obtain rfl := List.mem_singleton.mp (show j ∈ [cutJob] from hj)
    exact absurd hold (by decide)
  · intro key hkey
    have hnone : helloSweeping.records = [] := by decide +kernel
    rw [hnone] at hkey
    cases hkey

end GoFastdfs
