/-
  GoFastdfs.Leftover — the temporary file of a download that a crash cuts off, and the sweep
  (`DownloadFromPeer` of `http_download.go`, `RemoveDownloading` of `http_remove.go`).

  The key of a download holds the path of the finished file, with `DOCKER_DIR` in front; the
  sweep puts `DOCKER_DIR` in front of it once more and removes what is there. The temporary
  file has another name.

  Proved: the sweep removes the temporary file, and nothing else, exactly if the path has no
  `_` and leads, behind a second `DOCKER_DIR`, to that file (`leftover_swept_iff`); so it never
  does for a record whose name is that of an entry of its folder (`plain_leftover_stays`).
-/

import GoFastdfs.Sweep

namespace GoFastdfs

open Go (Str)

variable (E : Env) (c : Config)

/-! ## The file that is left -/

namespace Server

def writing (s : Server) (fi : FileInfo) (w : Download) (data : Str) : Server :=
  { asking c s fi w with disk := (toFile (fetchDisk c s.disk fi) (tmpPath c fi) data w.now).1 }

theorem cutOff_tmp {s : Server} {fi : FileInfo} (h : s.asks c fi = true) (w : Download) (data : Str) :
    s.cutOff E c fi w (.tmp data) = s.writing c fi w data := by
  unfold cutOff
  dsimp only
  rw [if_neg (by rw [h]; decide)]
  rfl

end Server

/-- The temporary file, as far as it has come, is at `l`. -/
structure Leftover (s : Server) (fi : FileInfo) (w : Download) (data : Str) (l : Loc) : Prop where
  place : (s.writing c fi w data).disk.locate (Server.tmpPath c fi) = some l
  file : (s.writing c fi w data).disk.node l = some (.file data w.now)

/-- After a crash and a restart, the sweep at the key of the download removes the file at `l`,
    and nothing else; if no other key is left, so does the whole turn. -/
structure SweptAlone (s : Server) (fi : FileInfo) (w : Download) (data : Str) (now : Int) (l : Loc) : Prop where
  key : ((s.writing c fi w data).restart.sweepKey c (Server.downloadKey w.start (getFilePathByInfo c fi)) now).disk =
    (s.writing c fi w data).disk.erase l
  turn : (s.writing c fi w data).restart.downloadingKeys = [Server.downloadKey w.start (getFilePathByInfo c fi)] →
    ((s.writing c fi w data).restart.removeDownloading c now).disk = (s.writing c fi w data).disk.erase l

section
variable {E c}

/-! ## The key -/

theorem sweepTarget_of_mem {start : Int} {path : Str} (h : '_' ∈ path) :
    Server.sweepTarget (Server.downloadKey start path) = none := by
  cases htarget : Server.sweepTarget (Server.downloadKey start path) with
  | none => rfl
  | some target => exact absurd h (sweepTarget_key htarget).2.2

theorem sweepTarget_of_notMem {start : Int} (hlo : -2 ^ 63 ≤ start) (hhi : start < 2 ^ 63) {path : Str} (h : '_' ∉ path) :
    Server.sweepTarget (Server.downloadKey start path) = some (start, path) := by
  have hstamp : '_' ∉ Go.itoa start := Go.notMem_itoa_int (by decide) (by decide) start
  have hsplit : (Server.downloadKey start path).splitOn '_' = ["downloading".toList, Go.itoa start, path] := by
    rw [← List.splitOn_eq_singleton h]
    exact Server.splitOn_logKey (d := "downloading".toList) (by decide) hstamp
  simp only [Server.sweepTarget, hsplit, Go.parseInt_itoa_int64 hlo hhi]

theorem sweepKey_of_mem (s : Server) {start now : Int} {path : Str} (h : '_' ∈ path) :
    s.sweepKey c (Server.downloadKey start path) now = s := by
  simp only [Server.sweepKey, sweepTarget_of_mem h]

theorem sweepKey_of_notMem (s : Server) {start now : Int} (hlo : -2 ^ 63 ≤ start) (hhi : start < 2 ^ 63)
    (hnow : 600 < now - start) {path : Str} (h : '_' ∉ path) :
    s.sweepKey c (Server.downloadKey start path) now = s.osRemove (c.dockerDir ++ path) := by
  simp only [Server.sweepKey, sweepTarget_of_notMem hlo hhi h, hnow, if_true]

/-! ## The removal -/

theorem erase_ne_self {d : Disk} {l : Loc} {n : Node} (hl : l ≠ []) (h : d.node l = some n) : d ≠ d.erase l := by
  intro he
  have hnode := Disk.node_erase hl (d := d) l
  rw [← he, h, if_pos rfl] at hnode
  cases hnode

theorem erase_inj {d : Disk} {k l : Loc} {n : Node} (hk : k ≠ []) (hl : l ≠ []) (hn : d.node l = some n)
    (h : d.erase k = d.erase l) : k = l := by
  by_contra hne
  have hnode := Disk.node_erase hk (d := d) l
  rw [h, Disk.node_erase hl, if_pos rfl, if_neg (Ne.symm hne), hn] at hnode
  cases hnode

/-- Removing a path takes a file, and it alone, exactly if the path leads to the file. -/
theorem remove_eq_erase_iff {d : Disk} {p : Str} {l : Loc} {data : Str} {t : Int} (hl : d.node l = some (.file data t)) :
    (d.remove p).getD d = d.erase l ↔ d.locate p = some l := by
  have hroot : l ≠ [] := Disk.ne_root_of_node (by rw [hl]; simp)
  constructor
  · intro h
    unfold Disk.remove at h
    cases hp : d.locate p with
    | none =>
      rw [hp] at h
      exact absurd h (erase_ne_self hroot hl)
    | some k =>
      rw [hp] at h
      dsimp only at h
      cases hk : d.node k with
      | none =>
        rw [hk] at h
        exact absurd h (erase_ne_self hroot hl)
      | some n =>
        rw [hk] at h
        cases n with
        | file x u =>
          have hkroot : k ≠ [] := Disk.ne_root_of_node (by rw [hk]; simp)
          rw [erase_inj hkroot hroot hl h]
        | dir =>
          dsimp only at h
          split at h
          · exact absurd h (erase_ne_self hroot hl)
          · rename_i hempty
            rw [erase_inj (fun he => hempty (Or.inl he)) hroot hl h]
  · intro h
    rw [Disk.remove_file h hl, Option.getD_some]

/-- At a server with a file at `l`, a turn at the key of a download older than ten minutes takes
    it alone exactly if the path of the key has no `_` and leads to `l` behind `DOCKER_DIR`. -/
theorem sweepKey_alone_iff {s : Server} {l : Loc} {data : Str} {t start now : Int} {path : Str}
    (hfile : s.disk.node l = some (.file data t)) (hlo : -2 ^ 63 ≤ start) (hhi : start < 2 ^ 63) (hnow : 600 < now - start) :
    (s.sweepKey c (Server.downloadKey start path) now).disk = s.disk.erase l ↔
      '_' ∉ path ∧ s.disk.locate (c.dockerDir ++ path) = some l := by
  by_cases hmem : '_' ∈ path
  · have hroot : l ≠ [] := Disk.ne_root_of_node (by rw [hfile]; simp)
    rw [sweepKey_of_mem s hmem]
    exact iff_of_false (erase_ne_self hroot hfile) fun hboth => hboth.1 hmem
  · rw [sweepKey_of_notMem s hlo hhi hnow hmem, and_iff_right hmem]
    exact remove_eq_erase_iff hfile

theorem sweptAlone_iff_key {s : Server} {fi : FileInfo} {w : Download} {data : Str} {now : Int} {l : Loc} :
    SweptAlone c s fi w data now l ↔
      ((s.writing c fi w data).restart.sweepKey c (Server.downloadKey w.start (getFilePathByInfo c fi)) now).disk =
        (s.writing c fi w data).disk.erase l := by
  refine ⟨fun h => h.key, fun h => ⟨h, fun hkeys => ?_⟩⟩
  rw [Server.removeDownloading_eq, hkeys]
  exact h

/-- The sweep more than ten minutes after the start of the download removes the temporary file,
    and nothing else, exactly if the path of the finished file has no `_` and leads to the
    temporary file behind another `DOCKER_DIR`. -/
theorem leftover_swept_iff {s : Server} {fi : FileInfo} {w : Download} {data : Str} {now : Int} {l : Loc}
    (h : Leftover c s fi w data l) (hlo : -2 ^ 63 ≤ w.start) (hhi : w.start < 2 ^ 63) (hnow : 600 < now - w.start) :
    SweptAlone c s fi w data now l ↔
      '_' ∉ getFilePathByInfo c fi ∧
        (s.writing c fi w data).disk.locate (c.dockerDir ++ getFilePathByInfo c fi) = some l :=
  sweptAlone_iff_key.trans (sweepKey_alone_iff (s := (s.writing c fi w data).restart) h.file hlo hhi hnow)

/-! ## Ordinary names -/

theorem isEntry_tmp {name : Str} (h : '/' ∉ name) : Disk.IsEntry ("tmp__".toList ++ name) where
  slash := by
    intro hm
    rcases List.mem_append.mp hm with hm | hm
    · exact absurd hm (by decide)
    · exact h hm
  nonempty := by simp
  dot := by simp
  dotdot := by simp

theorem getLast_of_locate {d : Disk} {p x : Str} (hp : p ≠ []) (hx : Disk.IsEntry x) {l : Loc}
    (h : d.locate (p ++ '/' :: x) = some l) : l.getLast? = some x := by
  rw [Disk.locate_child hp hx] at h
  obtain ⟨k, -, hk⟩ := Option.bind_eq_some_iff.mp h
  split at hk
  · rw [← Option.some.inj hk, List.getLast?_concat]
  · cases hk

/-- The temporary file of a record whose name is that of an entry of its folder is not swept,
    or not alone. -/
theorem plain_leftover_stays {s : Server} {fi : FileInfo} {w : Download} {data : Str} {now : Int} {l : Loc}
    (h : Leftover c s fi w data l) (hlo : -2 ^ 63 ≤ w.start) (hhi : w.start < 2 ^ 63) (hnow : 600 < now - w.start)
    (hpath : fi.path ≠ []) (hname : Disk.IsEntry fi.outname) : ¬ SweptAlone c s fi w data now l := by
  intro hswept
  obtain ⟨-, htarget⟩ :=
    (sweepKey_alone_iff (s := (s.writing c fi w data).restart) h.file hlo hhi hnow).mp hswept.key
  have hdir : c.dockerDir ++ fi.path ≠ [] := fun e => hpath (List.append_eq_nil_iff.mp e).2
  have htmp : l.getLast? = some ("tmp__".toList ++ fi.outname) :=
    getLast_of_locate (d := (s.writing c fi w data).disk) hdir (isEntry_tmp hname.slash) h.place
  have hdone : l.getLast? = some fi.outname := by
    have hsplit : c.dockerDir ++ getFilePathByInfo c fi = (c.dockerDir ++ (c.dockerDir ++ fi.path)) ++ '/' :: fi.outname := by
      simp only [getFilePathByInfo, FileInfo.fullpath, List.append_assoc]
    rw [hsplit] at htarget
    exact getLast_of_locate (fun e => hdir (List.append_eq_nil_iff.mp e).2) hname htarget
  have hlen := congrArg List.length (Option.some.inj (htmp.symm.trans hdone))
  simp only [List.length_append, String.length_toList] at hlen
  have hfive : "tmp__".length = 5 := by decide
  omega

end

/-! ## Fixed inputs -/

def helloTmp : Loc := helloFolder ++ ["tmp__a.txt".toList]

theorem hello_leftover : Leftover uploadConfig emptyRun.server helloRecord helloServed "he".toList helloTmp where
  place := by decide +kernel
  file := by decide +kernel

/-- The crash leaves the two bytes, and a sweep does too. -/
theorem a_leftover_is_not_swept :
    (emptyRun.server.cutOff Env.plain uploadConfig helloRecord helloServed (.tmp "he".toList)).disk.node helloTmp =
        some (.file "he".toList helloServed.now) ∧
      ¬ SweptAlone uploadConfig emptyRun.server helloRecord helloServed "he".toList 1000 helloTmp := by
  have hasks : emptyRun.server.asks uploadConfig helloRecord = true := by decide +kernel
  constructor
  · rw [Server.cutOff_tmp _ _ hasks]
    exact hello_leftover.file
  · exact plain_leftover_stays hello_leftover (by decide) (by decide) (by decide) (by decide)
      ⟨by decide, by decide, by decide, by decide⟩

/-- A record whose name climbs out of a folder and back: with either folder there, its path and
    that of its temporary file lead to one place. -/
def climbing : FileInfo := { helloRecord with path := "files/x".toList, name := "b/../y".toList }

def climbingNode : Server :=
  { disk := Disk.ofFiles [("files/x/b/k".toList, []), ("files/x/tmp__b/k".toList, [])] }

theorem leftover_swept_iff_climbing :
    SweptAlone {} climbingNode climbing helloServed "he".toList 1000 ["files".toList, "x".toList, "y".toList] :=
  (leftover_swept_iff ⟨by decide +kernel, by decide +kernel⟩ (by decide) (by decide) (by decide)).mpr
    ⟨by decide, by decide +kernel⟩

end GoFastdfs
