/-
  GoFastdfs.RepairStat — the statistics of a day computed again (`RepairStatByDate` of
  `http_repair.go`).

  The counters of a day are replaced by what its `files.md5` log holds: each record whose
  file is on the disk, once for each path. A merged file is in the log under the path of
  a name in a pack, where there is no file.

  The log of a day holds the records counted on it (`loadFileInfoByDate_perm`), so the two
  agree once every one of them has a file of its own. Proved: they do over every run of
  uploads that are not merged and deletions that take away the record's own content
  (`repair_keeps_statistics`). A merged file is lost from the count
  (`a_merged_file_is_not_counted_again`).
-/

import GoFastdfs.Statistics

namespace GoFastdfs

open Go (Str)
open Event (stored kept acked Apart)

variable (E : Env) (c : Config)

/-- The loop of `RepairStatByDate`: the count and the size after the rest of the log, from the
    paths seen, the count and the size before it. -/
def repairStatLoop (d : Disk) : List FileInfo → List Str → Int → Int → Int × Int
  | [], _, fileCount, fileSize => (fileCount, fileSize)
  | fileInfo :: rest, filePathSet, fileCount, fileSize =>
    let filePath := getFilePathByInfo c fileInfo
    if d.fileExists filePath = false then repairStatLoop d rest filePathSet fileCount fileSize
    else if filePathSet.contains filePath then repairStatLoop d rest filePathSet fileCount fileSize
    else repairStatLoop d rest (filePath :: filePathSet) (fileCount + 1) (fileSize + fileInfo.size)

namespace Server

/-- `RepairStatByDate`, over the values that `LoadFileInfoByDate` reads too; `SaveStat` is left out. -/
def repairStatByDate (s : Server) (date : Str) : StatDateFileInfo × Server :=
  let r := repairStatLoop c s.disk (s.loadFileInfoByDate date CONST_FILE_Md5_FILE_NAME) [] 0 0
  (⟨date, r.2, r.1⟩, { s with statMap := (s.statMap.put (countKey date) r.1).put (totalSizeKey date) r.2 })

end Server

section
variable {E c}

theorem repairStatLoop_all {d : Disk} {l : List FileInfo} (hexists : ∀ fi ∈ l, d.fileExists (getFilePathByInfo c fi) = true)
    (hnodup : (l.map (getFilePathByInfo c)).Nodup) : ∀ (seen : List Str) (fileCount fileSize : Int),
    (∀ fi ∈ l, getFilePathByInfo c fi ∉ seen) →
    repairStatLoop c d l seen fileCount fileSize =
      (fileCount + (l.map fun _ => (1 : Int)).sum, fileSize + (l.map (·.size)).sum) := by
  induction l with
  | nil =>
    intro seen fileCount fileSize _
    simp [repairStatLoop]
  | cons fi l ih =>
    intro seen fileCount fileSize hseen
    have hfi := hexists fi List.mem_cons_self
    have hnew : seen.contains (getFilePathByInfo c fi) = false := by simpa using hseen fi List.mem_cons_self
    obtain ⟨hnot, hnodup⟩ := List.nodup_cons.mp hnodup
    have hrest := ih (fun v hv => hexists v (List.mem_cons_of_mem _ hv)) hnodup (getFilePathByInfo c fi :: seen)
      (fileCount + 1) (fileSize + fi.size) fun v hv hmem => by
        rcases List.mem_cons.mp hmem with h | h
        · exact hnot (h ▸ List.mem_map_of_mem hv)
        · exact hseen v (List.mem_cons_of_mem _ hv) h
    simp only [repairStatLoop, hfi, hnew, Bool.true_eq_false, Bool.false_eq_true, if_false, hrest, List.map_cons,
      List.sum_cons]
    rw [Int.add_assoc, Int.add_assoc]

/-! ## The log of a day -/

def dayRecord (E : Env) (day : Str) (e : Sigma fun _ : Str => Value) : Option FileInfo :=
  (ownRecord e.1 e.2).filter fun fi => E.day fi.timeStamp = day

theorem dayRecord_eq_some {day : Str} {e : Sigma fun _ : Str => Value} {fi : FileInfo} :
    dayRecord E day e = some fi ↔ e = ⟨fi.md5, .record fi⟩ ∧ E.day fi.timeStamp = day := by
  obtain ⟨k, v⟩ := e
  simp only [dayRecord, Option.filter_eq_some_iff, decide_eq_true_eq]
  refine and_congr_left fun _ => ?_
  cases v with
  | empty =>
    constructor
    · intro h; cases h
    · intro h; cases h
  | record u =>
    simp only [ownRecord]
    constructor
    · intro h
      split at h
      · cases h
        subst k
        rfl
      · cases h
    · intro h
      cases h
      exact if_pos rfl

theorem dayShare_eq (g : FileInfo → Int) (day : Str) (e : Sigma fun _ : Str => Value) :
    dayShare E g day e.1 e.2 = ((dayRecord E day e).map g).getD 0 := by
  unfold dayShare dayRecord
  cases ownRecord e.1 e.2 with
  | none => rfl
  | some fi => by_cases h : E.day fi.timeStamp = day <;> simp [Option.filter_some, h]

theorem recordSum_eq (g : FileInfo → Int) (s : Server) (day : Str) :
    recordSum E g s day = ((s.ldb.entries.filterMap (dayRecord E day)).map g).sum := by
  unfold recordSum Store.total
  induction s.ldb.entries with
  | nil => rfl
  | cons e l ih =>
    rw [List.map_cons, List.sum_cons, ih, dayShare_eq]
    cases h : dayRecord E day e with
    | none => rw [List.filterMap_cons_none h, Option.map_none, Option.getD_none, Int.zero_add]
    | some fi => rw [List.filterMap_cons_some h, Option.map_some, Option.getD_some, List.map_cons, List.sum_cons]

/-- The log of a day holds the records of that day, each once. -/
theorem loadFileInfoByDate_perm {s : Server} (hmirror : Server.Mirror E s) (hlog : LogMatch E s) (t : Int) :
    (s.loadFileInfoByDate (E.day t) CONST_FILE_Md5_FILE_NAME).Perm
      (s.ldb.entries.filterMap (dayRecord E (E.day t))) := by
  have hscan : ∀ x ∈ s.logDB.scan (Go.hasPrefix · (keyPrefix (E.day t) CONST_FILE_Md5_FILE_NAME)),
      x.1 = fileKey E x.2 ∧ s.ldb.get x.2.md5 = some (.record x.2) := by
    intro x hx
    obtain ⟨hget, hp⟩ := Store.mem_scan.mp hx
    exact hlog x.1 x.2 hget ⟨t, hp⟩
  refine (List.perm_ext_iff_of_nodup ?_ ?_).mpr fun fi => ?_
  · refine List.Nodup.map_on (fun x hx y hy h => ?_) (Store.nodup_scan _ _)
    exact Prod.ext ((hscan x hx).1.trans ((congrArg (fileKey E) h).trans (hscan y hy).1.symm)) h
  · refine (Store.nodup_entries _).filterMap fun e e' fi he he' => ?_
    exact (dayRecord_eq_some.mp he).1.trans (dayRecord_eq_some.mp he').1.symm
  · simp only [Server.loadFileInfoByDate, List.mem_map, List.mem_filterMap, dayRecord_eq_some]
    constructor
    · intro hx
      obtain ⟨x, hx, rfl⟩ := hx
      obtain ⟨hkey, hget⟩ := hscan x hx
      have hp := (Store.mem_scan.mp hx).2
      rw [hkey] at hp
      refine ⟨_, Store.mem_entries.mpr hget, rfl, ?_⟩
      exact (Server.hasPrefix_keyPrefix (Server.underscore_notMem_day E _) (Server.underscore_notMem_day E t)
        (Server.underscore_notMem_logName (by decide)) (Server.underscore_notMem_logName (by decide)) hp).1
    · intro hx
      obtain ⟨e, he, rfl, hday⟩ := hx
      have hget := hmirror _ _ (Store.mem_entries.mp he) rfl
      refine ⟨(fileKey E fi, fi), Store.mem_scan.mpr ⟨hget, ?_⟩, rfl⟩
      rw [← hday]
      exact Server.hasPrefix_logKey _ _ _

/-- Where every record has a file of its own, computing the statistics of a day again changes
    no counter. -/
theorem repairStatByDate_stat {s : Server} (hcounted : Counted E s) (hmirror : Server.Mirror E s) (hlog : LogMatch E s)
    (hexists : ∀ v, s.ldb.get v.md5 = some (.record v) → s.disk.fileExists (getFilePathByInfo c v) = true)
    (hown : ∀ v w, s.ldb.get v.md5 = some (.record v) → s.ldb.get w.md5 = some (.record w) →
      getFilePathByInfo c v = getFilePathByInfo c w → v = w) (t : Int) (key : Str) :
    (s.repairStatByDate c (E.day t)).2.stat key = s.stat key := by
  have hperm := loadFileInfoByDate_perm hmirror hlog t
  generalize hl : s.loadFileInfoByDate (E.day t) CONST_FILE_Md5_FILE_NAME = l at hperm
  have hmem : ∀ v ∈ l, s.ldb.get v.md5 = some (.record v) := by
    intro v hv
    obtain ⟨e, he, hev⟩ := List.mem_filterMap.mp (hperm.mem_iff.mp hv)
    rw [(dayRecord_eq_some.mp hev).1] at he
    exact Store.mem_entries.mp he
  have hnodup : l.Nodup := by
    rw [hperm.nodup_iff]
    refine (Store.nodup_entries _).filterMap fun e e' fi he he' => ?_
    exact (dayRecord_eq_some.mp he).1.trans (dayRecord_eq_some.mp he').1.symm
  have hpaths : (l.map (getFilePathByInfo c)).Nodup :=
    hnodup.map_on fun v hv w hw h => hown v w (hmem v hv) (hmem w hw) h
  have hsum : ∀ g : FileInfo → Int, (l.map g).sum = recordSum E g s (E.day t) := by
    intro g
    rw [recordSum_eq, (hperm.map g).sum_eq]
  have hloop : repairStatLoop c s.disk l [] 0 0 = (recordCount E s (E.day t), recordSize E s (E.day t)) := by
    rw [repairStatLoop_all (fun v hv => hexists v (hmem v hv)) hpaths [] 0 0 fun _ _ h => (List.not_mem_nil h),
      hsum (fun _ => 1), hsum (·.size), Int.zero_add, Int.zero_add]
    rfl
  obtain ⟨hcount, hsize⟩ := hcounted t
  have hstat : (s.repairStatByDate c (E.day t)).2.stat key =
      if key = Server.totalSizeKey (E.day t) then recordSize E s (E.day t)
      else if key = Server.countKey (E.day t) then recordCount E s (E.day t) else s.stat key := by
    simp only [Server.repairStatByDate, hl, hloop, Server.stat, Store.get_put]
    split_ifs <;> rfl
  rw [hstat]
  split
  · rename_i h
    rw [h, hsize]
  split
  · rename_i h
    rw [h, hcount]
  · rfl

/-! ## Runs -/

variable (E c)

/-- What is asked of an upload: it is answered with an address, its content was not recorded
    before and is not merged, and its file goes to a plain place. -/
structure DayUpload (p : Run) (r : UploadRequest) (w : UploadDraw) : Prop where
  acknowledged : (p.server.upload E c r w).1.answered ≠ none
  new : ∀ e ∈ stored p.events, e.2 ≠ r.data
  unmerged : merges c r.data.length = false
  plain : ∀ header data fi, uploadForm E c r w.stamp = .ok (header, data, fi) → PlainUpload E c p.server header data fi w

/-- Uploads of new contents with the pushes they start, deletions and the log consumer in any
    order. -/
inductive DayStep : Run → Run → Prop
  | upload (p : Run) (r : UploadRequest) (w : UploadDraw) : DayUpload E c p r w → DayStep p (p.upload E c r w)
  | post (p : Run) (fi : FileInfo) (answer : Nat → PeerAnswer) :
      ((p.server.disk.stat (postPath c fi)).isSome = true → ∃ e ∈ kept p.events, SameRecord fi e.1 ∧ SavedAs fi e.1) →
      PushAgrees E c p.server fi → DayStep p (p.post E c fi answer)
  | remove (p : Run) (r : Request) (w : RemoveDraw) : OwnFile E c p r → DayStep p (p.remove E c r w)
  | consumerLog (p : Run) : DayStep p (p.consumerLog E)

def savedBy (l : List Event) : List FileInfo := (stored l).map (·.1)

structure DayInv (p : Run) : Prop where
  run : RunInv E c p
  tally : TallyInv E ⟨p.server, savedBy p.events⟩
  /-- A content is recorded once. -/
  unique : ∀ e ∈ stored p.events, ∀ e' ∈ stored p.events, e.2 = e'.2 → e = e'
  normal : ∀ e ∈ stored p.events, e.1.offSet < 0

variable {E c}

theorem stored_events (e : UploadEnd) (data : Str) (l : List Event) :
    stored (e.events data ++ l) = (e.recorded.map (·, data)).toList ++ stored l := by
  cases e with
  | refused => rfl
  | known => rfl
  | empty => rfl
  | stored => rfl

theorem savedBy_events (e : UploadEnd) (data : Str) (l : List Event) :
    savedBy (e.events data ++ l) = e.recorded.toList ++ savedBy l := by
  rw [savedBy, stored_events, List.map_append]
  cases e.recorded with
  | none => rfl
  | some fi => rfl

theorem stored_remove (e : RemoveEnd) (l : List Event) : stored (e.events ++ l) = stored l := by
  cases e with
  | notPeer => rfl
  | notPermitted => rfl
  | failed => rfl
  | removed => rfl

theorem keysApart_of_apart {p : Run} (hinv : RunInv E c p) (hnormal : ∀ e ∈ stored p.events, e.1.offSet < 0)
    (hapart : Apart E c p.events) : KeysApart E (savedBy p.events) := by
  intro v hv w hw h
  obtain ⟨e, he, rfl⟩ := List.mem_map.mp hv
  obtain ⟨e', he', rfl⟩ := List.mem_map.mp hw
  obtain ⟨hd, _⟩ := hinv.digest e he
  obtain ⟨hd', _⟩ := hinv.digest e' he'
  have hx : e.2 = e'.2 := by
    apply content_eq hapart (Or.inl (Event.mem_stored.mp he')) (Event.mem_stored.mp he)
    rw [(hinv.legible e he (hnormal e he)).fullpath, or_self] at h
    exact Or.inr (hd'.symm.trans h.symm)
  rw [hd, hd', hx]

/-- Two records of one digest are of one upload. -/
theorem DayInv.same {p : Run} (h : DayInv E c p) (hapart : Apart E c p.events) {v w : FileInfo}
    (hv : OfSaved (savedBy p.events) v) (hw : OfSaved (savedBy p.events) w) (hmd5 : v.md5 = w.md5) :
    v.timeStamp = w.timeStamp ∧ v.size = w.size := by
  obtain ⟨v', hv', hsv⟩ := hv
  obtain ⟨w', hw', hsw⟩ := hw
  obtain ⟨e, he, rfl⟩ := List.mem_map.mp hv'
  obtain ⟨e', he', rfl⟩ := List.mem_map.mp hw'
  have hx : e.2 = e'.2 := by
    apply content_eq hapart (Or.inl (Event.mem_stored.mp he')) (Event.mem_stored.mp he)
    exact Or.inl (by rw [← (h.run.digest e he).1, ← (h.run.digest e' he').1, ← hsv.md5, ← hsw.md5, hmd5])
  rw [h.unique e he e' he' hx] at hsv
  exact ⟨hsv.timeStamp.trans hsw.timeStamp.symm, hsv.size.trans hsw.size.symm⟩

theorem DayInv.headAgrees {p : Run} (h : DayInv E c p) (hapart : Apart E c p.events) : HeadAgrees E p.server := by
  intro q rest hq hname v hv
  have hqmem : q ∈ p.server.queueFileLog := by rw [hq]; exact List.mem_cons_self
  have hqof : OfSaved (savedBy p.events) q.fileInfo := by
    apply (h.tally.queue q hqmem).removes
    rcases h.run.queue q hqmem with ⟨hr, _⟩ | he
    · exact hr
    · rw [he] at hname
      exact absurd hname (by simp [errorName_ne])
  obtain ⟨-, -, u, hu, hus, -⟩ := h.tally.record hv
  obtain ⟨w, hw, hsame⟩ := hqof
  have hmd5 := (pathApart_of_saved h.tally (keysApart_of_apart h.run h.normal hapart) (fun _ h => h) hw hsame).2 v hv
  obtain ⟨hstamp, hsize⟩ := h.same hapart ⟨u, hu, hus⟩ ⟨w, hw, hsame⟩ hmd5
  exact ⟨by rw [hstamp], hsize⟩

theorem DayInv.headRecord {p : Run} (h : DayInv E c p) : headRecord p.server = [] := by
  unfold GoFastdfs.headRecord
  split
  · rfl
  · rename_i q rest hq
    have hqmem : q ∈ p.server.queueFileLog := by rw [hq]; exact List.mem_cons_self
    rcases h.run.queue q hqmem with ⟨hn, _⟩ | hn
    · rw [hn, if_neg Server.logNames_ne.1]
    · rw [hn, if_neg errorName_ne.1]

theorem dayInv_upload (hdist : c.enableDistinctFile = true) {p : Run} (h : DayInv E c p) {r : UploadRequest}
    {w : UploadDraw} (hday : DayUpload E c p r w) (hapart : Apart E c (p.upload E c r w).events) :
    DayInv E c (p.upload E c r w) := by
  -- a content that is new has no deletion in the queue
  have hgood : GoodUpload E c p r w := by
    refine ⟨hday.plain, fun header data hfile => ?_, fun e _ header data fi hform hm => ?_⟩
    · intro hx
      obtain ⟨q, hq, hn, hmd5⟩ := hx
      obtain ⟨v, hans⟩ := Option.ne_none_iff_exists'.mp hday.acknowledged
      have hdata : r.data = data := by rw [UploadRequest.data, hfile]
      have hanswered : Event.answered v data ∈ (p.upload E c r w).events := by
        simp only [Run.upload, UploadEnd.events, hans, hdata]
        exact List.mem_append_left _ List.mem_cons_self
      obtain ⟨u, hu, hsame⟩ := (h.tally.queue q hq).removes hn
      obtain ⟨e, he, rfl⟩ := List.mem_map.mp hu
      have hrec : Event.recorded e.1 e.2 ∈ (p.upload E c r w).events :=
        List.mem_append_right _ (Event.mem_stored.mp he)
      apply hday.new e he
      rw [hdata]
      exact content_eq hapart (Or.inr hanswered) hrec (Or.inl (by rw [← hmd5, hsame.md5, (h.run.digest e he).1]))
    · obtain ⟨hfile, _⟩ := uploadForm_ok E c hform
      have hdata : r.data = data := by rw [UploadRequest.data, hfile]
      rw [← hdata, hday.unmerged] at hm
      cases hm
  have hrun := runInv_upload hdist h.run hgood hapart
  have hstored : ∀ e ∈ stored (p.upload E c r w).events,
      (∃ fi, (p.server.upload E c r w).1.recorded = some fi ∧ (fi, r.data) = e) ∨ e ∈ stored p.events := by
    intro e he
    simp only [Run.upload, stored_events] at he
    rcases List.mem_append.mp he with he | he
    · exact Or.inl (Option.map_eq_some_iff.mp (Option.mem_toList.mp he))
    · exact Or.inr he
  have hnormal : ∀ e ∈ stored (p.upload E c r w).events, e.1.offSet < 0 := by
    intro e he
    rw [hrun.normal e he]
    rcases hstored e he with ⟨fi, _, rfl⟩ | hold
    · exact hday.unmerged
    · exact (h.run.normal e hold).mp (h.normal e hold)
  have hkeys := keysApart_of_apart hrun hnormal hapart
  refine ⟨hrun, ?_, ?_, hnormal⟩
  · have hsaved : savedBy (p.upload E c r w).events = (p.server.upload E c r w).1.recorded.toList ++ savedBy p.events :=
      savedBy_events _ _ _
    rw [hsaved] at hkeys ⊢
    exact tallyInv_upload hdist h.tally r w hkeys
  · intro e he e' he' hx
    rcases hstored e he with ⟨fi, hfi, rfl⟩ | hold
    · rcases hstored e' he' with ⟨fi', hfi', rfl⟩ | hold'
      · obtain rfl := Option.some.inj (hfi.symm.trans hfi')
        rfl
      · exact absurd hx.symm (hday.new e' hold')
    · rcases hstored e' he' with ⟨fi', _, rfl⟩ | hold'
      · exact absurd hx (hday.new e hold)
      · exact h.unique e hold e' hold' hx

theorem dayInv_remove {p : Run} (h : DayInv E c p) {r : Request} {w : RemoveDraw} (hown : OwnFile E c p r) :
    DayInv E c (p.remove E c r w) := by
  have hstored : stored (p.remove E c r w).events = stored p.events := stored_remove _ _
  refine ⟨runInv_remove h.run hown, ?_, ?_, ?_⟩
  · rw [savedBy, hstored]
    exact tallyInv_remove h.tally r w
  · rw [hstored]
    exact h.unique
  · rw [hstored]
    exact h.normal

theorem dayInv_consumerLog {p : Run} (h : DayInv E c p) (hapart : Apart E c p.events) : DayInv E c (p.consumerLog E) := by
  have htally := tallyInv_consumerLog h.tally (h.headAgrees hapart) (by
    rw [h.headRecord]
    exact keysApart_of_apart h.run h.normal hapart)
  rw [h.headRecord] at htally
  exact ⟨runInv_consumerLog h.run hapart, htally, h.unique, h.normal⟩

theorem dayInv_post {p : Run} (h : DayInv E c p) (hapart : Apart E c p.events) {fi : FileInfo} (answer : Nat → PeerAnswer)
    (hkept : (p.server.disk.stat (postPath c fi)).isSome = true → ∃ e ∈ kept p.events, SameRecord fi e.1 ∧ SavedAs fi e.1)
    (hagree : PushAgrees E c p.server fi) : DayInv E c (p.post E c fi answer) := by
  by_cases hf : (p.server.disk.stat (postPath c fi)).isSome = true
  · obtain ⟨e, he, hsame, hsaved⟩ := hkept hf
    have hof : OfSaved (savedBy p.events) fi := ⟨e.1, List.mem_map_of_mem (Event.mem_kept he).1, hsaved⟩
    exact ⟨runInv_post h.run he hsame, tallyInv_post h.tally (keysApart_of_apart h.run h.normal hapart) answer
      hof hagree, h.unique,
      h.normal⟩
  · -- without a file nothing is pushed
    have hs : p.post E c fi answer = p := by
      have hs : (p.server.postFileToPeer E c fi answer).1 = p.server :=
        Server.postLoop_absent (Option.not_isSome_iff_eq_none.mp hf) _
      rw [Run.post, hs]
    rw [hs]
    exact h

theorem dayStep_events {p p' : Run} (h : DayStep E c p p') : ∀ e ∈ p.events, e ∈ p'.events := by
  cases h with
  | upload r w _ => exact fun e he => List.mem_append_right _ he
  | remove r w _ => exact fun e he => List.mem_append_right _ he
  | post fi answer _ _ => exact fun e he => he
  | consumerLog => exact fun e he => he

theorem dayRun (hdist : c.enableDistinctFile = true) {d : Disk} {p : Run}
    (hrun : Relation.ReflTransGen (DayStep E c) ⟨Server.fresh d, []⟩ p) (hapart : Apart E c p.events) : DayInv E c p := by
  induction hrun with
  | refl =>
    refine ⟨runInv_start d, tallyInv_start d, fun e he => ?_, fun e he => ?_⟩
    · cases he
    · cases he
  | tail _ hstep ih =>
    have hapart0 := hapart.mono (dayStep_events hstep)
    have h := ih hapart0
    cases hstep with
    | upload r w hday => exact dayInv_upload hdist h hday hapart
    | remove r w hown => exact dayInv_remove h hown
    | post fi answer hkept hagree => exact dayInv_post h hapart0 answer hkept hagree
    | consumerLog => exact dayInv_consumerLog h hapart

/-- With an empty queue every record has its own file. -/
theorem DayInv.settled {p : Run} (h : DayInv E c p) (hqueue : p.server.queueFileLog = []) {v : FileInfo}
    (hv : p.server.ldb.get v.md5 = some (.record v)) :
    ∃ e ∈ kept p.events, SameRecord v e.1 ∧ p.server.disk.read (getFilePathByInfo c v) = some e.2 := by
  obtain ⟨e0, he0, hsame0, -⟩ := h.run.known _ v hv
  have ho : v.offSet < 0 := by
    rw [hsame0.offSet]
    exact h.normal e0 he0
  rcases h.run.live v hv ho with ⟨e, he, hsame⟩ | ⟨q, hq, _⟩
  · exact ⟨e, he, hsame, by rw [hsame.path c ho, h.run.files e he]⟩
  · rw [hqueue] at hq
    cases hq

/-- Once the log queue is empty, computing the statistics of a day again changes no counter. -/
theorem repair_keeps_statistics (hdist : c.enableDistinctFile = true) {d : Disk} {p : Run}
    (hrun : Relation.ReflTransGen (DayStep E c) ⟨Server.fresh d, []⟩ p) (hapart : Apart E c p.events)
    (hqueue : p.server.queueFileLog = []) (t : Int) (key : Str) :
    (p.server.repairStatByDate c (E.day t)).2.stat key = p.server.stat key := by
  have h := dayRun hdist hrun hapart
  refine repairStatByDate_stat h.tally.counted h.tally.mirror h.tally.logged (fun v hv => ?_) (fun v w hv hw hpath => ?_) t key
  · obtain ⟨e, _, _, hread⟩ := h.settled hqueue hv
    exact Disk.fileExists_of_read hread
  · -- one path holds one content
    obtain ⟨e, he, hsame, hread⟩ := h.settled hqueue hv
    obtain ⟨e', he', hsame', hread'⟩ := h.settled hqueue hw
    have hx : e.2 = e'.2 := by
      rw [hpath, hread'] at hread
      exact (Option.some.inj hread).symm
    have hee := h.unique e (Event.mem_kept he).1 e' (Event.mem_kept he').1 hx
    have hmd5 : v.md5 = w.md5 := by rw [hsame.md5, hsame'.md5, hee]
    rw [hmd5, hw] at hv
    cases hv
    rfl

end

/-! ## Fixed inputs -/

theorem helloRemoved_run : Relation.ReflTransGen (DayStep Env.plain peerConfig) emptyRun helloRemoved := by
  have hfirst : DayStep Env.plain peerConfig emptyRun helloUploaded := by
    refine .upload emptyRun helloUpload .sample ⟨by decide +kernel, fun e he => ?_, rfl,
      plain_of_free rfl rfl (by decide +kernel)⟩
    cases he
  have hpush : DayStep Env.plain peerConfig helloUploaded helloPushed := by
    refine .post helloUploaded helloRecord _ (fun _ => ⟨(helloRecord, "hello".toList), by decide +kernel, .refl _, .refl _⟩)
      fun n hn => ⟨fun h0 => absurd h0 (by decide), helloRecord, by decide +kernel, rfl, rfl⟩
  have hsecond : DayStep Env.plain peerConfig helloPushed secondUploaded :=
    .upload helloPushed secondUpload .sample ⟨by decide +kernel, by decide +kernel, rfl,
      plain_of_free rfl rfl (by decide +kernel)⟩
  have hown : OwnFile Env.plain peerConfig secondUploaded (removal "hello".toList) := by
    have hrecord : secondUploaded.server.getFileInfoFromLevelDB (removeKey Env.plain peerConfig (removal "hello".toList)) =
        some { helloRecord with peers := [[], "http://b".toList] } := by decide +kernel
    intro v hv _ _
    rw [hrecord] at hv
    obtain rfl := Option.some.inj hv
    exact ⟨"hello".toList, by decide +kernel, by decide +kernel⟩
  exact .tail (.tail (.tail (.single hfirst) hpush) hsecond) (.remove secondUploaded _ {} hown)

/-- `hello` uploaded and pushed, `second` uploaded, `hello` deleted, and the queue emptied: one
    file, before and after. -/
theorem hello_is_counted_again :
    let s := (helloRemoved.consumerLog Env.plain).server
    (s.repairStatByDate peerConfig (Env.plain.day 0)).2.stat (Server.countKey (Env.plain.day 0)) =
      s.stat (Server.countKey (Env.plain.day 0)) :=
  repair_keeps_statistics rfl (.tail helloRemoved_run (.consumerLog helloRemoved)) (by decide +kernel) (by decide +kernel) 0 _

/-- The same upload where small files are merged: its six bytes in the pack are counted when
    it is recorded, and not when they are counted again. -/
theorem a_merged_file_is_not_counted_again :
    let c : Config := { uploadConfig with enableMergeSmallFile := true }
    let u := emptyRun.server.upload Env.plain c helloUpload .sample
    let s := (u.2.repairStatByDate c (Env.plain.day 0)).2
    u.1.answered.isSome = true ∧ u.2.queueFileLog = [] ∧
      u.2.stat (Server.countKey (Env.plain.day 0)) = 1 ∧ s.stat (Server.countKey (Env.plain.day 0)) = 0 ∧
      u.2.stat (Server.totalSizeKey (Env.plain.day 0)) = 6 ∧ s.stat (Server.totalSizeKey (Env.plain.day 0)) = 0 := by
  decide +kernel

end GoFastdfs
