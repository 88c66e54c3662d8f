/-
  GoFastdfs.Backup — the daily backup of the file log (`http_backup.go`) and the reader of
  its digests (`GetMd5sMapByDate`).

  A backup of a day writes two files below `DATA_DIR`: `files.md5`, a line of four columns
  for every record of the day's log, and `meta.data`, two lines with the record's JSON
  text, under its digest and under the digest of its path. Both files are removed first,
  and again at the end where they stayed empty.

  Proved: whatever the two files held before and whatever was done to the databases, a
  backup of a day leaves exactly the day's log in them, and nothing else on the disk
  changes (`backup_writes`). Reading `files.md5` back counts the digests of the log, and
  these are the digests that the node lists to its peers (`backup_agrees_with_log`);
  reading the lines of `meta.data` back gives the text of every record under both of its keys,
  in the order of the log (`meta_reads_back`).
-/

import GoFastdfs.Metadata

namespace GoFastdfs

open Go (Str)

variable (E : Env) (c : Config)

def DATA_DIR_NAME : Str := "data".toList
def META_FILE_NAME : Str := "meta.data".toList

def Config.DATA_DIR (c : Config) : Str := c.dockerDir ++ DATA_DIR_NAME

def backUpDir (date : Str) : Str := c.DATA_DIR ++ '/' :: date

def backUpLog (date : Str) : Str := backUpDir c date ++ '/' :: CONST_FILE_Md5_FILE_NAME

def backUpMeta (date : Str) : Str := backUpDir c date ++ '/' :: META_FILE_NAME

/-! ## Writing -/

def metaLine (key value : Str) : Str := key ++ '\t' :: value ++ ['\n']

def logRow (fi : FileInfo) : Str :=
  fi.md5 ++ '|' :: (Go.itoa fi.size ++ '|' :: (Go.itoa fi.timeStamp ++ '|' :: fi.fullpath)) ++ ['\n']

def writeString (d : Disk) (p data : Str) (now : Int) : Disk := (d.append p data now).getD d

/-- One turn of the loop over the log: a record and the text it is stored in. -/
def backUpRow (date : Str) (now : Int) (d : Disk) (row : FileInfo × Str) : Disk :=
  let d := writeString d (backUpMeta c date) (metaLine row.1.md5 row.2) now
  let d := writeString d (backUpMeta c date) (metaLine (E.md5 row.1.fullpath) row.2) now
  writeString d (backUpLog c date) (logRow row.1) now

def removeOld (d : Disk) (p : Str) : Disk := if d.fileExists p then (d.remove p).getD d else d

def removeEmpty (d : Disk) (p : Str) : Disk :=
  match d.stat p with
  | some n => if n.size = 0 then (d.remove p).getD d else d
  | none => d

namespace Server

def backedUpRows (s : Server) (texts : RowTexts) (date : Str) : List (FileInfo × Str) :=
  (s.logDB.scan (Go.hasPrefix · (keyPrefix date CONST_FILE_Md5_FILE_NAME))).map fun x => (x.2, texts.text x.1 x.2)

theorem backedUpRows_records (s : Server) (texts : RowTexts) (date : Str) :
    (s.backedUpRows texts date).map (·.1) = s.loadFileInfoByDate date CONST_FILE_Md5_FILE_NAME := by
  rw [backedUpRows, List.map_map]
  rfl

def backUpMetaDataByDate (s : Server) (texts : RowTexts) (date : Str) (now : Int) : Server :=
  let d := s.disk.mkdirAll (backUpDir c date)
  let d := removeOld d (backUpLog c date)
  let d := removeOld d (backUpMeta c date)
  match d.append (backUpLog c date) [] now with
  | none => { s with disk := d }
  | some d =>
    match d.append (backUpMeta c date) [] now with
    | none => { s with disk := d }
    | some d =>
      let d := (s.backedUpRows texts date).foldl (backUpRow E c date now) d
      { s with disk := removeEmpty (removeEmpty d (backUpLog c date)) (backUpMeta c date) }

end Server

/-- A line of `meta.data`, taken apart at the first tab. -/
def metaEntry (line : Str) : Option (Str × Str) :=
  match line.splitOn '\t' with
  | key :: value :: _ => some (key, value)
  | _ => none

/-! ## What is written -/

def logText (rows : List FileInfo) : Str := rows.flatMap logRow

def metaText (rows : List (FileInfo × Str)) : Str :=
  rows.flatMap fun row => metaLine row.1.md5 row.2 ++ metaLine (E.md5 row.1.fullpath) row.2

/-- The place of the backup of a day: the folder can be made, nothing but files stands where the
    two files go, and the backup fits into a file. -/
structure BackUpPlace (s : Server) (texts : RowTexts) (date : Str) : Prop where
  folder : ∃ l, (s.disk.mkdirAll (backUpDir c date)).locate (backUpDir c date) = some l ∧
    (s.disk.mkdirAll (backUpDir c date)).isDir l = true
  log : (s.disk.mkdirAll (backUpDir c date)).stat (backUpLog c date) ≠ some .dir
  data : (s.disk.mkdirAll (backUpDir c date)).stat (backUpMeta c date) ≠ some .dir
  fits : (logText (s.loadFileInfoByDate date CONST_FILE_Md5_FILE_NAME)).length < 2 ^ 63
  fitsMeta : (metaText E (s.backedUpRows texts date)).length < 2 ^ 63

variable {E c}

theorem fileNames_entries : Disk.IsEntry CONST_FILE_Md5_FILE_NAME ∧ Disk.IsEntry META_FILE_NAME ∧
    CONST_FILE_Md5_FILE_NAME ≠ META_FILE_NAME :=
  ⟨⟨by decide, by decide, by decide, by decide⟩, ⟨by decide, by decide, by decide, by decide⟩, by decide⟩

theorem backUpDir_ne_nil (date : Str) : backUpDir c date ≠ [] := by simp [backUpDir]

/-- The two files of a backup are at two places of the folder. -/
theorem BackUpPlace.locs {s : Server} {texts : RowTexts} {date : Str} (h : BackUpPlace E c s texts date) :
    ∃ p q, (s.disk.mkdirAll (backUpDir c date)).locate (backUpLog c date) = some p ∧
      (s.disk.mkdirAll (backUpDir c date)).locate (backUpMeta c date) = some q ∧ p ≠ q ∧
      (s.disk.mkdirAll (backUpDir c date)).node p ≠ some .dir ∧ (s.disk.mkdirAll (backUpDir c date)).node q ≠ some .dir := by
  obtain ⟨hlog, hmeta, hne⟩ := fileNames_entries
  obtain ⟨l, hl, hdir⟩ := h.folder
  have hp : (s.disk.mkdirAll (backUpDir c date)).locate (backUpLog c date) = some (l ++ [CONST_FILE_Md5_FILE_NAME]) := by
    rw [backUpLog, Disk.locate_child (backUpDir_ne_nil date) hlog, hl, Option.bind_some, if_pos hdir]
  have hq : (s.disk.mkdirAll (backUpDir c date)).locate (backUpMeta c date) = some (l ++ [META_FILE_NAME]) := by
    rw [backUpMeta, Disk.locate_child (backUpDir_ne_nil date) hmeta, hl, Option.bind_some, if_pos hdir]
  refine ⟨_, _, hp, hq, ?_, fun hn => h.log ?_, fun hn => h.data ?_⟩
  · intro e
    exact hne (List.cons.inj (List.append_cancel_left e)).1
  · rw [Disk.stat, hp, Option.bind_some, hn]
  · rw [Disk.stat, hq, Option.bind_some, hn]

section Steps

variable {d₀ d : Disk} {p q : Loc} {x y : Option Str}

theorem pair_removeOld (h : Disk.Pair d₀ p q d x y) {r : Str} (hr : d₀.locate r = some p) :
    Disk.Pair d₀ p q (removeOld d r) none y := by
  unfold removeOld
  by_cases hex : d.fileExists r = true
  · rw [if_pos hex]
    exact h.remove hr
  · rw [if_neg hex]
    have hread := h.read hr
    cases x with
    | none => exact h
    | some data => exact absurd (Disk.fileExists_of_read hread) hex

theorem pair_writeString (h : Disk.Pair d₀ p q d (some data) y) {r : Str} (hr : d₀.locate r = some p) {more : Str}
    (now : Int) (hlen : (data ++ more).length < 2 ^ 63) :
    Disk.Pair d₀ p q (writeString d r more now) (some (data ++ more)) y := by
  obtain ⟨d', hd', hpair⟩ := h.append hr now hlen
  rw [writeString, hd']
  exact hpair

theorem pair_removeEmpty (h : Disk.Pair d₀ p q d (some data) y) {r : Str} (hr : d₀.locate r = some p) :
    Disk.Pair d₀ p q (removeEmpty d r) (if data = [] then none else some data) y := by
  obtain ⟨t, ht⟩ := h.first
  have hstat : d.stat r = some (.file data t) := by rw [Disk.stat, h.locate r, hr, Option.bind_some, ht, Option.map_some]
  simp only [removeEmpty, hstat, Node.size, Int.natCast_eq_zero, List.length_eq_zero_iff]
  by_cases hnil : data = []
  · rw [if_pos hnil, if_pos hnil]
    exact h.remove hr
  · rw [if_neg hnil, if_neg hnil]
    exact h

variable {date : Str}

theorem pair_backUpRow (hlog : d₀.locate (backUpLog c date) = some p) (hmeta : d₀.locate (backUpMeta c date) = some q)
    {x y : Str} (h : Disk.Pair d₀ p q d (some x) (some y)) (now : Int) (row : FileInfo × Str)
    (hx : (x ++ logText [row.1]).length < 2 ^ 63) (hy : (y ++ metaText E [row]).length < 2 ^ 63) :
    Disk.Pair d₀ p q (backUpRow E c date now d row) (some (x ++ logText [row.1])) (some (y ++ metaText E [row])) := by
  simp only [logText, metaText, List.flatMap_cons, List.flatMap_nil, List.append_nil, ← List.append_assoc] at hx hy ⊢
  have hfirst : (y ++ metaLine row.1.md5 row.2).length < 2 ^ 63 := by
    simp only [List.length_append] at hy ⊢
    omega
  have h1 := pair_writeString h.swap hmeta now hfirst
  have h2 := pair_writeString h1 hmeta now hy
  exact pair_writeString h2.swap hlog now hx

theorem logText_append (a b : List FileInfo) : logText (a ++ b) = logText a ++ logText b := List.flatMap_append

theorem metaText_append (a b : List (FileInfo × Str)) : metaText E (a ++ b) = metaText E a ++ metaText E b :=
  List.flatMap_append

theorem pair_backUpRows (hlog : d₀.locate (backUpLog c date) = some p) (hmeta : d₀.locate (backUpMeta c date) = some q)
    (now : Int) : ∀ (rows : List (FileInfo × Str)) {d : Disk} {x y : Str}, Disk.Pair d₀ p q d (some x) (some y) →
      (x ++ logText (rows.map (·.1))).length < 2 ^ 63 → (y ++ metaText E rows).length < 2 ^ 63 →
      Disk.Pair d₀ p q (rows.foldl (backUpRow E c date now) d) (some (x ++ logText (rows.map (·.1))))
        (some (y ++ metaText E rows))
  | [], d, x, y, h, _, _ => by simpa [logText, metaText] using h
  | row :: rows, d, x, y, h, hx, hy => by
    have hlogs : x ++ logText ((row :: rows).map (·.1)) = x ++ logText [row.1] ++ logText (rows.map (·.1)) := by
      rw [List.map_cons, ← List.singleton_append, logText_append, List.append_assoc]
    have hmetas : y ++ metaText E (row :: rows) = y ++ metaText E [row] ++ metaText E rows := by
      rw [← List.singleton_append, metaText_append, List.append_assoc]
    rw [hlogs] at hx
    rw [hmetas] at hy
    have hrow := pair_backUpRow (E := E) hlog hmeta h now row (by rw [List.length_append] at hx; omega)
      (by rw [List.length_append] at hy; omega)
    rw [hlogs, hmetas, List.foldl_cons]
    exact pair_backUpRows hlog hmeta now rows hrow hx hy

end Steps

/-- A backup works on two files of its folder, and leaves the day's log in them, or no file where
    the log is empty. -/
theorem backup_pair {s : Server} {texts : RowTexts} {date : Str} (h : BackUpPlace E c s texts date) (now : Int) :
    let rows := s.backedUpRows texts date
    let d₀ := s.disk.mkdirAll (backUpDir c date)
    ∃ p q, d₀.locate (backUpLog c date) = some p ∧ d₀.locate (backUpMeta c date) = some q ∧
      Disk.Pair d₀ p q (s.backUpMetaDataByDate E c texts date now).disk
        (if rows = [] then none else some (logText (rows.map (·.1)))) (if rows = [] then none else some (metaText E rows)) := by
  intro rows d₀
  have hfits : (logText (rows.map (·.1))).length < 2 ^ 63 := by
    rw [s.backedUpRows_records texts date]
    exact h.fits
  obtain ⟨p, q, hp, hq, hne, hfp, hfq⟩ := h.locs
  obtain ⟨x, y, hstart⟩ := Disk.Pair.start hfp hfq hne
  have hcleared := (pair_removeOld (pair_removeOld hstart hp).swap hq).swap
  obtain ⟨d₁, hd₁, hopen⟩ := hcleared.append hp now (by simp : ([] ++ [] : Str).length < 2 ^ 63)
  obtain ⟨d₂, hd₂, hopen'⟩ := hopen.swap.append hq now (by simp : ([] ++ [] : Str).length < 2 ^ 63)
  have hrows := pair_backUpRows (E := E) hp hq now rows hopen'.swap (by simpa using hfits) (by simpa using h.fitsMeta)
  have hend := (pair_removeEmpty (pair_removeEmpty hrows hp).swap hq).swap
  have hd : (s.backUpMetaDataByDate E c texts date now).disk =
      removeEmpty (removeEmpty (rows.foldl (backUpRow E c date now) d₂) (backUpLog c date)) (backUpMeta c date) := by
    simp only [rows, Server.backUpMetaDataByDate, hd₁, hd₂]
  have hempty : (logText (rows.map (·.1)) = [] ↔ rows = []) ∧ (metaText E rows = [] ↔ rows = []) := by
    cases rows with
    | nil => simp [logText, metaText]
    | cons row rows => simp [logText, metaText, logRow, metaLine]
  rw [← hd] at hend
  simp only [Option.getD_none, List.nil_append, hempty.1, hempty.2] at hend
  exact ⟨p, q, hp, hq, hend⟩

/-- What the two files hold, and that every other file is as it was. -/
theorem backup_writes {s : Server} {texts : RowTexts} {date : Str} (h : BackUpPlace E c s texts date) (now : Int) :
    let rows := s.backedUpRows texts date
    let d := (s.backUpMetaDataByDate E c texts date now).disk
    d.read (backUpLog c date) = (if rows = [] then none else some (logText (rows.map (·.1)))) ∧
      d.read (backUpMeta c date) = (if rows = [] then none else some (metaText E rows)) ∧
      ∀ r data, s.disk.read r = some data → d.locate r ≠ d.locate (backUpLog c date) →
        d.locate r ≠ d.locate (backUpMeta c date) → d.read r = some data := by
  intro rows d
  obtain ⟨p, q, hp, hq, hend⟩ := backup_pair h now
  refine ⟨hend.read hp, hend.swap.read hq, fun r data hr hnp hnq => ?_⟩
  rw [hend.locate, hend.locate, hp] at hnp
  rw [hend.locate, hend.locate, hq] at hnq
  rw [hend.read_other hnp hnq]
  exact (Disk.mkdirAll_grow s.disk (backUpDir c date)).read hr

/-- A backup of another day stays. -/
theorem backup_keeps_other {s : Server} {texts : RowTexts} {date date' : Str} (h : BackUpPlace E c s texts date) (now : Int)
    (hentry : Disk.IsEntry date) (hentry' : Disk.IsEntry date') (hne : date' ≠ date) {data : Str}
    (hread : s.disk.read (backUpLog c date') = some data) :
    (s.backUpMetaDataByDate E c texts date now).disk.read (backUpLog c date') = some data := by
  obtain ⟨p, q, hp, hq, hend⟩ := backup_pair h now
  have hgrown := (Disk.mkdirAll_grow s.disk (backUpDir c date)).read hread
  obtain ⟨l, t, hl, -⟩ := Disk.read_eq_some.mp hgrown
  obtain ⟨hlog, hmeta, -⟩ := fileNames_entries
  have hroot : c.DATA_DIR ≠ [] := by
    unfold Config.DATA_DIR
    exact List.append_ne_nil_of_right_ne_nil _ (by decide)
  have hparent : ∀ {day name : Str} {k : Loc}, Disk.IsEntry day → Disk.IsEntry name →
      (s.disk.mkdirAll (backUpDir c date)).locate (backUpDir c day ++ '/' :: name) = some k →
      ∃ top, (s.disk.mkdirAll (backUpDir c date)).locate c.DATA_DIR = some top ∧ k = top ++ [day] ++ [name] := by
    intro day name k hday hname hk
    rw [Disk.locate_child (backUpDir_ne_nil day) hname] at hk
    obtain ⟨dir, hdir, hk⟩ := Option.bind_eq_some_iff.mp hk
    unfold backUpDir at hdir
    rw [Disk.locate_child hroot hday] at hdir
    obtain ⟨top, htop, hdir⟩ := Option.bind_eq_some_iff.mp hdir
    split_ifs at hdir hk
    exact ⟨top, htop, by rw [← Option.some.inj hk, ← Option.some.inj hdir]⟩
  obtain ⟨top, htop, rfl⟩ := hparent hentry' hlog hl
  have hother : ∀ {name : Str} {k : Loc}, Disk.IsEntry name →
      (s.disk.mkdirAll (backUpDir c date)).locate (backUpDir c date ++ '/' :: name) = some k →
      (s.disk.mkdirAll (backUpDir c date)).locate (backUpLog c date') ≠ some k := by
    intro name k hname hk hsame
    obtain ⟨top', htop', rfl⟩ := hparent hentry hname hk
    obtain rfl := Option.some.inj (htop.symm.trans htop')
    have hlocs := Option.some.inj (hl.symm.trans hsame)
    rw [List.append_assoc, List.append_assoc, List.append_cancel_left_eq] at hlocs
    exact hne (List.cons.inj hlocs).1
  rw [hend.read_other (hother hlog hp) (hother hmeta hq)]
  exact hgrown

/-! ## The log of a day -/

/-- A key of the log ends with the digest of its record. -/
def LogOwn (E : Env) (s : Server) : Prop :=
  ∀ k v, s.logDB.get k = some v → ∃ t n, n ∈ Server.logNames ∧ k = logKey (E.day t) n v.md5

theorem LogOwn.put {s : Server} (h : LogOwn E s) (t : Int) {n : Str} (hn : n ∈ Server.logNames) (v : FileInfo) {s' : Server}
    (hs' : s'.logDB = s.logDB.put (logKey (E.day t) n v.md5) v) : LogOwn E s' := by
  intro k w hk
  rw [hs', Store.get_put] at hk
  split_ifs at hk with hkey
  · obtain rfl := Option.some.inj hk
    exact ⟨t, n, hn, hkey⟩
  · exact h k w hk

theorem LogOwn.sub {s s' : Server} (h : LogOwn E s) (hsub : ∀ k v, s'.logDB.get k = some v → s.logDB.get k = some v) :
    LogOwn E s' :=
  fun k v hk => h k v (hsub k v hk)

/-- A record whose row can be read back. -/
structure PlainRow (v : FileInfo) : Prop where
  bar : '|' ∉ v.md5
  line : '\n' ∉ v.md5
  underscore : '_' ∉ v.md5
  path : '\n' ∉ v.fullpath
  int64 : -2 ^ 63 ≤ v.size ∧ v.size < 2 ^ 63

theorem LogOwn.scan {s : Server} (h : LogOwn E s) {t : Int} {x : Str × FileInfo}
    (hx : x ∈ s.logDB.scan (Go.hasPrefix · (keyPrefix (E.day t) CONST_FILE_Md5_FILE_NAME))) :
    x.1 = logKey (E.day t) CONST_FILE_Md5_FILE_NAME x.2.md5 := by
  obtain ⟨hget, hprefix⟩ := Store.mem_scan.mp hx
  obtain ⟨u, n, hn, hkey⟩ := h x.1 x.2 hget
  rw [hkey] at hprefix ⊢
  obtain ⟨hday, hname⟩ := Server.hasPrefix_keyPrefix (Server.underscore_notMem_day E u) (Server.underscore_notMem_day E t)
    (Server.underscore_notMem_logName hn) (Server.underscore_notMem_logName (by decide)) hprefix
  rw [hday, hname]

theorem LogOwn.nodup {s : Server} (h : LogOwn E s) (t : Int) :
    ((s.loadFileInfoByDate (E.day t) CONST_FILE_Md5_FILE_NAME).map (·.md5)).Nodup := by
  rw [Server.loadFileInfoByDate, List.map_map]
  refine List.Nodup.map_on (fun x hx y hy hxy => ?_) (Store.nodup_scan _ _)
  have hkey : x.1 = y.1 := by
    rw [h.scan hx, h.scan hy]
    exact congrArg _ hxy
  have hvalue := (Store.mem_scan.mp hx).1
  rw [hkey, (Store.mem_scan.mp hy).1] at hvalue
  exact Prod.ext hkey (Option.some.inj hvalue).symm

theorem LogOwn.getMd5sByDate {s : Server} (h : LogOwn E s) {t : Int}
    (hplain : ∀ v ∈ s.loadFileInfoByDate (E.day t) CONST_FILE_Md5_FILE_NAME, PlainRow v) :
    s.getMd5sByDate (E.day t) CONST_FILE_Md5_FILE_NAME =
      (s.loadFileInfoByDate (E.day t) CONST_FILE_Md5_FILE_NAME).map (·.md5) := by
  rw [Server.getMd5sByDate, Server.loadFileInfoByDate, List.map_map, ← List.filterMap_eq_map]
  refine List.filterMap_congr fun x hx => ?_
  have hrow := hplain x.2 (List.mem_map_of_mem hx)
  rw [h.scan hx, Server.splitOn_logKey (Server.underscore_notMem_day E t) (Server.underscore_notMem_logName (by decide)),
    List.splitOn_eq_singleton hrow.underscore]
  rfl

/-! ## Reading back -/

/-- Only the disk is written. -/
theorem backUp_eq (s : Server) (texts : RowTexts) (date : Str) (now : Int) :
    s.backUpMetaDataByDate E c texts date now = { s with disk := (s.backUpMetaDataByDate E c texts date now).disk } := by
  unfold Server.backUpMetaDataByDate
  dsimp only
  split
  · rfl
  · split <;> rfl

variable (E c)

/-- JSON text is on one line and in one column. -/
theorem notMem_text (texts : RowTexts) (key : Str) (v : FileInfo) : '\t' ∉ texts.text key v ∧ '\n' ∉ texts.text key v :=
  ⟨fun h => texts.printable key v _ h (by decide), fun h => texts.printable key v _ h (by decide)⟩

def metaEntries (rows : List (FileInfo × Str)) : List (Str × Str) :=
  rows.flatMap fun row => [(row.1.md5, row.2), (E.md5 row.1.fullpath, row.2)]

theorem metaText_lines (rows : List (FileInfo × Str)) :
    metaText E rows = (metaEntries E rows).flatMap fun e => (e.1 ++ '\t' :: e.2) ++ ['\n'] := by
  simp [metaText, metaEntries, metaLine, List.flatMap_assoc]

theorem metaEntry_line {key value : Str} (hkey : '\t' ∉ key) (hvalue : '\t' ∉ value) :
    metaEntry (key ++ '\t' :: value) = some (key, value) := by
  rw [metaEntry, List.splitOn_append_cons_self_of_not_mem hkey, List.splitOn_eq_singleton hvalue]

/-- The lines of `meta.data`, taken apart, give the log back: the text of every record in order,
    under its digest and under the digest of its path. -/
theorem meta_reads_back {s : Server} {texts : RowTexts} {date : Str} (now : Int) (hplace : BackUpPlace E c s texts date)
    (hkeys : ∀ v ∈ s.loadFileInfoByDate date CONST_FILE_Md5_FILE_NAME,
      ('\t' ∉ v.md5 ∧ '\n' ∉ v.md5) ∧ '\t' ∉ E.md5 v.fullpath ∧ '\n' ∉ E.md5 v.fullpath) :
    (((s.backUpMetaDataByDate E c texts date now).disk.read (backUpMeta c date)).getD [] |>.splitOn '\n').filterMap metaEntry =
      metaEntries E (s.backedUpRows texts date) := by
  have hread := (backup_writes hplace now).2.1
  have htext : ((s.backUpMetaDataByDate E c texts date now).disk.read (backUpMeta c date)).getD [] =
      metaText E (s.backedUpRows texts date) := by
    rw [hread]
    split_ifs with hnil
    · rw [hnil]
      rfl
    · rfl
  have hplain : ∀ e ∈ metaEntries E (s.backedUpRows texts date), ('\t' ∉ e.1 ∧ '\n' ∉ e.1) ∧ '\t' ∉ e.2 ∧ '\n' ∉ e.2 := by
    intro e he
    obtain ⟨row, hrow, he⟩ := List.mem_flatMap.mp he
    have hrecord := hkeys row.1 (s.backedUpRows_records texts date ▸ List.mem_map_of_mem hrow)
    obtain ⟨x, -, rfl⟩ := List.mem_map.mp hrow
    rcases List.mem_pair.mp he with rfl | rfl
    · exact ⟨hrecord.1, notMem_text texts _ _⟩
    · exact ⟨hrecord.2, notMem_text texts _ _⟩
  have hlines : (metaText E (s.backedUpRows texts date)).splitOn '\n' =
      (metaEntries E (s.backedUpRows texts date)).map (fun e => e.1 ++ '\t' :: e.2) ++ [[]] := by
    rw [metaText_lines]
    refine Go.splitOn_lines fun e he => ?_
    rw [List.mem_append, List.mem_cons, not_or, not_or]
    exact ⟨(hplain e he).1.2, by decide, (hplain e he).2.2⟩
  rw [htext, hlines, List.filterMap_append, List.filterMap_map]
  have hlast : [[]].filterMap metaEntry = [] := by decide
  rw [hlast, List.append_nil]
  have hall : ∀ e ∈ metaEntries E (s.backedUpRows texts date),
      (metaEntry ∘ fun e : Str × Str => e.1 ++ '\t' :: e.2) e = some e :=
    fun e he => metaEntry_line (hplain e he).1.1 (hplain e he).2.1
  rw [List.filterMap_congr hall, List.filterMap_some]

/-! ## Fixed inputs -/

def backedUpRecord : FileInfo :=
  { name := "a.txt".toList, path := "files/default".toList, md5 := "5d41402abc4b2a76".toList, size := 5 }

def backedUpNode : Server :=
  (Server.fresh { cwd := [], nodes := ∅ }).saveFileMd5Log Env.plain backedUpRecord CONST_FILE_Md5_FILE_NAME

theorem backedUp_rows : backedUpNode.loadFileInfoByDate (Env.plain.day 0) CONST_FILE_Md5_FILE_NAME = [backedUpRecord] := by
  decide +kernel

theorem backedUp_place : BackUpPlace Env.plain {} backedUpNode RowTexts.plain (Env.plain.day 0) := by
  refine ⟨⟨["data".toList, "19700101".toList], ?_, ?_⟩, ?_, ?_, ?_, ?_⟩
  all_goals decide +kernel

theorem a_backup_of_meta_is_read_back :
    (((backedUpNode.backUpMetaDataByDate Env.plain {} RowTexts.plain (Env.plain.day 0) 7).disk.read
      (backUpMeta {} (Env.plain.day 0))).getD []
        |>.splitOn '\n').filterMap metaEntry =
      metaEntries Env.plain (backedUpNode.backedUpRows RowTexts.plain (Env.plain.day 0)) :=
  meta_reads_back Env.plain {} 7 backedUp_place (by
    rw [backedUp_rows]
    decide +kernel)

end GoFastdfs
