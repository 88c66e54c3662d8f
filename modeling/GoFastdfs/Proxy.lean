/-
  GoFastdfs.Proxy — downloads handed from node to node (`Download`, `DownloadNotFound`,
  `DownloadFileToResponse` of `http_download.go`, `CheckFileExist` of `http_info.go`,
  `checkPeerFileExist` of `fileserver.go`).

  A node without the file sends the client's address on to the first of its peers that
  reports a record, and passes the answer back. A peer looks at its disk before it
  reports a record of a normal file; a record of any other kind it reports as it is. Asked
  for the file, such a peer does as the first node did.

  Databases and disks are held fixed, so what each node does with an address is a relation
  on the nodes (`Forwards`).

  Proved: the chain of requests ends exactly when no ring of nodes that lack the file and
  report it lies ahead (`proxy_chain_ends_iff`); where the key of the path leads to that
  path's records, such a ring has only records of another kind than normal files, all of
  them without their file (`ring_is_of_stale_records`).
-/

import GoFastdfs.Auth
import GoFastdfs.SmallFile
import GoFastdfs.Sync
import Mathlib.Data.Fintype.Pigeonhole
import Mathlib.Order.WellFounded

namespace GoFastdfs

open Go (Str)

/-! ## Chains -/

section Chains

open Relation

variable {α : Type} {R : α → α → Prop}

def Endless (R : α → α → Prop) (a : α) : Prop := ∃ f : ℕ → α, f 0 = a ∧ ∀ n, R (f n) (f (n + 1))

theorem endless_iff_not_acc {a : α} : Endless R a ↔ ¬ Acc (flip R) a :=
  (not_acc_iff_exists_descending_chain (r := flip R)).symm

theorem not_ring_of_acc {a : α} (h : Acc R a) : ¬ TransGen R a a := by
  have hT : Acc (TransGen R) a := h.transGen
  clear h
  induction hT with
  | intro x _ ih =>
    intro hx
    exact ih x hx hx

theorem endless_of_ring {a b : α} (hab : ReflTransGen R a b) (hb : TransGen R b b) : Endless R a := by
  rw [endless_iff_not_acc]
  intro ha
  have haccb : Acc (flip R) b := by
    clear hb
    induction hab with
    | refl => exact ha
    | tail _ h ih => exact ih.inv h
  exact not_ring_of_acc haccb (transGen_swap.mpr hb)

theorem reaches_of_chain {f : ℕ → α} (hf : ∀ n, R (f n) (f (n + 1))) {m n : ℕ} (h : m < n) : TransGen R (f m) (f n) := by
  induction n, h using Nat.le_induction with
  | base => exact .single (hf m)
  | succ n _ ih => exact ih.tail (hf n)

theorem ring_of_endless [Finite α] {a : α} (h : Endless R a) : ∃ b, ReflTransGen R a b ∧ TransGen R b b := by
  obtain ⟨f, rfl, hf⟩ := h
  obtain ⟨m, n, hne, heq⟩ := Finite.exists_ne_map_eq_of_infinite f
  have hreach : ∀ m, ReflTransGen R (f 0) (f m) := by
    intro m
    cases m with
    | zero => exact .refl
    | succ m => exact (reaches_of_chain hf m.succ_pos).to_reflTransGen
  rcases Nat.lt_or_gt_of_ne hne with hlt | hlt
  · exact ⟨f m, hreach m, by simpa only [← heq] using reaches_of_chain hf hlt⟩
  · exact ⟨f n, hreach n, by simpa only [heq] using reaches_of_chain hf hlt⟩

theorem endless_iff_ring [Finite α] {a : α} : Endless R a ↔ ∃ b, ReflTransGen R a b ∧ TransGen R b b := by
  constructor
  · exact ring_of_endless
  · intro h
    obtain ⟨b, hab, hb⟩ := h
    exact endless_of_ring hab hb

end Chains

/-! ## Nodes -/

structure Cluster (ι : Type) where
  config : ι → Config
  server : ι → Server
  /-- The node that answers at an address, if one does. -/
  dial : ι → Str → Option ι

variable {ι : Type} (E : Env) (C : Cluster ι)

namespace Cluster

/-- `checkPeerFileExist`: no answer and an answer without a digest are errors. -/
def checkPeerFileExist (i : ι) (peer md5sum fpath : Str) : Option FileInfo :=
  match C.dial i peer with
  | none => none
  | some j =>
    let fileInfo := ((C.server j).checkFileExist E (C.config j) md5sum fpath).1.persist
    if fileInfo.md5 = [] then none else some fileInfo

/-- `DownloadNotFound`: the peer that the request goes to, or a 404. -/
def downloadNotFound (i : ι) (r : Request) : Option Str :=
  (C.config i).peers.find? fun peer =>
    match C.checkPeerFileExist E i peer (pathMd5 E (C.config i) r) (getFilePathFromRequest (C.config i) r).1 with
    | none => false
    | some fileInfo => fileInfo.md5 ≠ []

inductive Answer where
  /-- A file, a listing, a refusal or a crash: the node does not look any further. -/
  | own
  | notFound
  | proxied (peer : Str)
  deriving DecidableEq, Repr

def answerNotFound (i : ι) (r : Request) : Answer :=
  match C.downloadNotFound E i r with
  | none => .notFound
  | some peer => .proxied peer

variable {Img : Type} (I : Images Img)

/-- `Download`; `isPeer` and `auth` are the answers of `IsPeer` and `CheckAuth`. -/
def download (i : ι) (r : Request) (isPeer auth : Bool) (now : Int) : Answer :=
  let c := C.config i
  if Go.contains r.requestURI "..".toList then .own
  else if r.requestURI = ['/'] ∨ r.requestURI = [] ∨ r.requestURI = '/' :: c.group ∨
      r.requestURI = '/' :: (c.group ++ ['/']) then .own
  else if checkDownloadAuth E c (C.server i) r isPeer auth now ≠ .allow then .own
  else if (getFilePathFromRequest c r).2 = [] then
    match (C.server i).disk.stat (getFilePathFromRequest c r).1 with
    | none => C.answerNotFound E i r
    | some _ => .own
  else
    match downloadSmallFileByURI c I (C.server i).disk r with
    | .notFound => C.answerNotFound E i r
    | _ => .own

def get (uri : Str) : Request := { requestURI := uri }

/-- Asked for the address, node `i` asks node `j` for it (`DownloadFileToResponse`). -/
def Forwards (uri : Str) (i j : ι) : Prop :=
  ∃ isPeer auth now peer, C.download E I i (get uri) isPeer auth now = .proxied peer ∧ C.dial i peer = some j

/-! ## What a node knows of an address -/

/-- Node `i` lets a request for the address through to the file. -/
def Passes (uri : Str) (i : ι) : Prop :=
  Go.contains uri "..".toList = false ∧
  ¬ (uri = ['/'] ∨ uri = [] ∨ uri = '/' :: (C.config i).group ∨ uri = '/' :: ((C.config i).group ++ ['/'])) ∧
  ∃ isPeer auth now, checkDownloadAuth E (C.config i) (C.server i) (get uri) isPeer auth now = .allow

/-- Node `i` has no file at the address: nothing at the path, or no sound extent in the
    pack. -/
def Lacks (uri : Str) (i : ι) : Prop :=
  let c := C.config i
  let d := (C.server i).disk
  if (getFilePathFromRequest c (get uri)).2 = [] then d.stat (getFilePathFromRequest c (get uri)).1 = none
  else (∃ b, getSmallFileByURI c d (get uri) = .none b) ∨
    ∃ x bytes, getSmallFileByURI c d (get uri) = .data (x :: bytes) ∧ x ≠ '1'

/-- Node `j` reports a record: one under the key that is not of a normal file, or whose
    file is there; with none, a file at the path itself. -/
def Reports (j : ι) (md5sum fpath : Str) : Prop :=
  match (C.server j).getFileInfoFromLevelDB md5sum with
  | some fi => fi.md5 ≠ [] ∧ (fi.offSet ≠ -1 ∨ (C.server j).disk.fileExists (getFilePathByInfo (C.config j) fi) = true)
  | none => fpath ≠ [] ∧ E.md5 fpath ≠ [] ∧ (C.server j).disk.fileExists fpath = true

/-- The peer at an address is asked about what node `i` lacks, and reports it. -/
def ReportsTo (uri : Str) (i : ι) (peer : Str) (j : ι) : Prop :=
  C.dial i peer = some j ∧
    C.Reports E j (pathMd5 E (C.config i) (get uri)) (getFilePathFromRequest (C.config i) (get uri)).1

/-- Node `i` lets the request pass and lacks the file, and `j` is the first of its peers
    that reports one. -/
structure Hands (uri : Str) (i j : ι) : Prop where
  passes : C.Passes E uri i
  lacks : C.Lacks uri i
  first : ∃ before peer after, (C.config i).peers = before ++ peer :: after ∧ C.ReportsTo E uri i peer j ∧
    ∀ p ∈ before, ∀ k, ¬ C.ReportsTo E uri i p k

/-! ## A request follows the reports -/

variable {E C I}

theorem reports_iff {j : ι} {md5sum fpath : Str} :
    C.Reports E j md5sum fpath ↔ ((C.server j).checkFileExist E (C.config j) md5sum fpath).1.md5 ≠ [] := by
  unfold Reports Server.checkFileExist
  cases (C.server j).getFileInfoFromLevelDB md5sum with
  | some fi =>
    dsimp only
    by_cases hoff : fi.offSet ≠ -1
    · simp [hoff]
    · cases hex : (C.server j).disk.fileExists (getFilePathByInfo (C.config j) fi) <;> simp [hoff]
  | none =>
    dsimp only
    by_cases hp : fpath = []
    · simp [hp]
    · cases hs : (C.server j).disk.stat fpath <;> simp [hp, Disk.fileExists, hs, Server.fileInfoOfPath]

theorem reportsTo_iff {uri : Str} {i : ι} {peer : Str} :
    (∃ j, C.ReportsTo E uri i peer j) ↔
      ∃ fi, C.checkPeerFileExist E i peer (pathMd5 E (C.config i) (get uri))
        (getFilePathFromRequest (C.config i) (get uri)).1 = some fi ∧ fi.md5 ≠ [] := by
  unfold ReportsTo checkPeerFileExist
  cases C.dial i peer with
  | none => simp
  | some j =>
    by_cases h : ((C.server j).checkFileExist E (C.config j) (pathMd5 E (C.config i) (get uri))
      (getFilePathFromRequest (C.config i) (get uri)).1).1.md5 = [] <;> simp [reports_iff, h]

theorem downloadNotFound_iff {uri : Str} {i : ι} {peer : Str} :
    C.downloadNotFound E i (get uri) = some peer ↔
      ∃ before after, (C.config i).peers = before ++ peer :: after ∧ (∃ j, C.ReportsTo E uri i peer j) ∧
        ∀ p ∈ before, ∀ k, ¬ C.ReportsTo E uri i p k := by
  have hask : ∀ p, (match C.checkPeerFileExist E i p (pathMd5 E (C.config i) (get uri))
      (getFilePathFromRequest (C.config i) (get uri)).1 with
      | none => false
      | some fileInfo => decide (fileInfo.md5 ≠ [])) = true ↔ ∃ j, C.ReportsTo E uri i p j := by
    intro p
    rw [reportsTo_iff]
    cases C.checkPeerFileExist E i p (pathMd5 E (C.config i) (get uri))
      (getFilePathFromRequest (C.config i) (get uri)).1 <;> simp
  unfold downloadNotFound
  rw [List.find?_eq_some_iff_append]
  simp only [hask, Bool.not_eq_true', ← Bool.not_eq_true, not_exists]
  constructor
  · intro h
    obtain ⟨hj, before, after, heq, hbefore⟩ := h
    exact ⟨before, after, heq, hj, hbefore⟩
  · intro h
    obtain ⟨before, after, heq, hj, hbefore⟩ := h
    exact ⟨hj, before, after, heq, hbefore⟩

theorem downloadSmallFileByURI_notFound_iff {c : Config} {d : Disk} {r : Request} :
    downloadSmallFileByURI c I d r = .notFound ↔
      (∃ b, getSmallFileByURI c d r = .none b) ∨ ∃ x bytes, getSmallFileByURI c d r = .data (x :: bytes) ∧ x ≠ '1' := by
  unfold downloadSmallFileByURI
  cases getSmallFileByURI c d r with
  | none b => simp
  | panic => simp
  | data bytes =>
    cases bytes with
    | nil => simp
    | cons x bytes =>
      dsimp only
      split_ifs with h1 h2 <;> simp [h1]

theorem answerNotFound_proxied_iff {i : ι} {r : Request} {peer : Str} :
    C.answerNotFound E i r = .proxied peer ↔ C.downloadNotFound E i r = some peer := by
  unfold answerNotFound
  cases C.downloadNotFound E i r <;> simp

/-- Behind the checks: a node looks further exactly for a file that it lacks. -/
theorem download_passed_iff {uri : Str} {i : ι} {peer : Str} {isPeer auth : Bool} {now : Int}
    (hdots : Go.contains uri "..".toList = false)
    (hindex : ¬ (uri = ['/'] ∨ uri = [] ∨ uri = '/' :: (C.config i).group ∨ uri = '/' :: ((C.config i).group ++ ['/'])))
    (hauth : checkDownloadAuth E (C.config i) (C.server i) (get uri) isPeer auth now = .allow) :
    C.download E I i (get uri) isPeer auth now = .proxied peer ↔
      C.Lacks uri i ∧ C.downloadNotFound E i (get uri) = some peer := by
  have huri : (get uri).requestURI = uri := rfl
  unfold download Lacks
  dsimp only
  rw [huri, if_neg (by rw [hdots]; decide), if_neg hindex, if_neg (not_not.mpr hauth), ← answerNotFound_proxied_iff]
  by_cases hsmall : (getFilePathFromRequest (C.config i) (get uri)).2 = []
  · rw [if_pos hsmall, if_pos hsmall]
    cases (C.server i).disk.stat (getFilePathFromRequest (C.config i) (get uri)).1 <;> simp
  · rw [if_neg hsmall, if_neg hsmall, ← downloadSmallFileByURI_notFound_iff (I := I)]
    cases downloadSmallFileByURI (C.config i) I (C.server i).disk (get uri) <;> simp

theorem download_proxied_iff {uri : Str} {i : ι} {peer : Str} :
    (∃ isPeer auth now, C.download E I i (get uri) isPeer auth now = .proxied peer) ↔
      C.Passes E uri i ∧ C.Lacks uri i ∧ C.downloadNotFound E i (get uri) = some peer := by
  constructor
  · intro h
    obtain ⟨isPeer, auth, now, h⟩ := h
    have hpass : Go.contains uri "..".toList = false ∧
        ¬ (uri = ['/'] ∨ uri = [] ∨ uri = '/' :: (C.config i).group ∨ uri = '/' :: ((C.config i).group ++ ['/'])) ∧
        checkDownloadAuth E (C.config i) (C.server i) (get uri) isPeer auth now = .allow := by
      have h' := h
      unfold download at h'
      dsimp only at h'
      split_ifs at h' with hdots hindex hauth
      all_goals exact ⟨Bool.eq_false_iff.mpr hdots, hindex, not_not.mp hauth⟩
    obtain ⟨hdots, hindex, hauth⟩ := hpass
    exact ⟨⟨hdots, hindex, isPeer, auth, now, hauth⟩, (download_passed_iff hdots hindex hauth).mp h⟩
  · intro h
    obtain ⟨⟨hdots, hindex, isPeer, auth, now, hauth⟩, h⟩ := h
    exact ⟨isPeer, auth, now, (download_passed_iff hdots hindex hauth).mpr h⟩

theorem forwards_iff_hands {uri : Str} {i j : ι} : C.Forwards E I uri i j ↔ C.Hands E uri i j := by
  constructor
  · intro h
    obtain ⟨isPeer, auth, now, peer, hdown, hdial⟩ := h
    obtain ⟨hpass, hlack, hnf⟩ := download_proxied_iff.mp ⟨isPeer, auth, now, hdown⟩
    obtain ⟨before, after, heq, ⟨k, hk⟩, hbefore⟩ := downloadNotFound_iff.mp hnf
    obtain rfl : k = j := Option.some.inj (hk.1.symm.trans hdial)
    exact ⟨hpass, hlack, before, peer, after, heq, hk, hbefore⟩
  · intro h
    obtain ⟨before, peer, after, heq, hj, hbefore⟩ := h.first
    have hnf : C.downloadNotFound E i (get uri) = some peer :=
      downloadNotFound_iff.mpr ⟨before, after, heq, ⟨j, hj⟩, hbefore⟩
    obtain ⟨isPeer, auth, now, hdown⟩ := download_proxied_iff.mpr ⟨h.passes, h.lacks, hnf⟩
    exact ⟨isPeer, auth, now, peer, hdown, hj.1⟩

/-- The chain of requests behind a client's ends exactly when it does not come to a ring of
    nodes, each of them without the file and the first to report it to the one before. -/
theorem proxy_chain_ends_iff [Finite ι] (I : Images Img) (uri : Str) (i : ι) :
    ¬ Endless (C.Forwards E I uri) i ↔
      ∀ j, Relation.ReflTransGen (C.Hands E uri) i j → ¬ Relation.TransGen (C.Hands E uri) j j := by
  have hrel : C.Forwards E I uri = C.Hands E uri := by
    funext i j
    exact propext forwards_iff_hands
  rw [hrel, endless_iff_ring]
  simp only [not_exists, not_and]


/-! ## What a ring is made of -/

/-- Every node reads the address as the path `p`, and what a node has under the key of `p`
    is a record of that path. -/
structure PathKeyed (E : Env) (C : Cluster ι) (uri p : Str) : Prop where
  path : ∀ i, getFilePathFromRequest (C.config i) (get uri) = (p, [])
  keyed : ∀ j fi, (C.server j).getFileInfoFromLevelDB (E.md5 p) = some fi → getFilePathByInfo (C.config j) fi = p

/-- What a node reports without having it is a record of another kind than a normal
    file's. -/
theorem PathKeyed.stale_of_reports {uri p : Str} (h : PathKeyed E C uri p) {i j : ι} {peer : Str}
    (hrep : C.ReportsTo E uri i peer j) (hlack : C.Lacks uri j) :
    ∃ fi, (C.server j).getFileInfoFromLevelDB (E.md5 p) = some fi ∧ fi.offSet ≠ -1 ∧
      (C.server j).disk.fileExists (getFilePathByInfo (C.config j) fi) = false := by
  have hgone : (C.server j).disk.fileExists p = false := by
    unfold Lacks at hlack
    dsimp only at hlack
    rw [h.path j, if_pos rfl] at hlack
    simp [Disk.fileExists, hlack]
  have hkey : pathMd5 E (C.config i) (get uri) = E.md5 p := by simp [pathMd5, h.path i]
  have hrep : C.Reports E j (E.md5 p) p := by simpa only [hkey, h.path i] using hrep.2
  unfold Reports at hrep
  cases hfi : (C.server j).getFileInfoFromLevelDB (E.md5 p) with
  | none =>
    rw [hfi] at hrep
    exact absurd hrep.2.2 (by simp [hgone])
  | some fi =>
    rw [hfi] at hrep
    have hfile : (C.server j).disk.fileExists (getFilePathByInfo (C.config j) fi) = false := by
      rw [h.keyed j fi hfi]
      exact hgone
    refine ⟨fi, rfl, ?_, hfile⟩
    intro hoff
    exact absurd hrep.2 (by simp [hoff, hfile])

/-- Every node on a ring has such a record. -/
theorem ring_is_of_stale_records {uri p : Str} (h : PathKeyed E C uri p) {j : ι}
    (hring : Relation.TransGen (C.Hands E uri) j j) :
    ∃ fi, (C.server j).getFileInfoFromLevelDB (E.md5 p) = some fi ∧ fi.offSet ≠ -1 ∧
      (C.server j).disk.fileExists (getFilePathByInfo (C.config j) fi) = false := by
  obtain ⟨i, _, hij⟩ := Relation.TransGen.tail'_iff.mp hring
  obtain ⟨k, hjk, _⟩ := Relation.TransGen.head'_iff.mp hring
  obtain ⟨_, peer, _, _, hrep, _⟩ := hij.first
  exact h.stale_of_reports hrep hjk.lacks

/-! ## Two nodes -/

def announced : FileInfo :=
  { name := "a.txt".toList, path := "files/default".toList, offSet := -2
    md5 := Go.md5 "files/default/a.txt".toList }

/-- Two nodes, each the other's peer and told of `announced`; `files` are the files on
    their disks. -/
def pair (files : Bool → List (Str × Str)) : Cluster Bool :=
  let config : Bool → Config := fun i =>
    { group := "group1".toList, supportGroupManage := true
      peers := [if i then "http://b".toList else "http://a".toList] }
  { config
    server := fun i =>
      (Server.syncFileInfo Env.plain (config i) { disk := Disk.ofFiles (files i) } announced "a".toList).1
    dial := fun _ peer =>
      if peer = "http://a".toList then some true else if peer = "http://b".toList then some false else none }

def announcedURI : Str := "/group1/default/a.txt".toList

/-- Told of a file that came to neither of them, two nodes hand each other the request. -/
theorem stale_records_proxy_forever :
    Endless ((pair fun _ => []).Forwards Env.plain Images.none announcedURI) true := by
  have hstep : ∀ i, (pair fun _ => []).Forwards Env.plain Images.none announcedURI i (!i) := by
    intro i
    refine ⟨false, false, 0, if i then "http://b".toList else "http://a".toList, ?_, ?_⟩ <;>
      revert i <;> decide +kernel
  exact endless_of_ring .refl (.tail (.single (hstep true)) (hstep false))

theorem pair_hands {files : Bool → List (Str × Str)} {uri : Str} {i j : Bool}
    (h : (pair files).Hands Env.plain uri i j) : j = !i := by
  obtain ⟨before, peer, after, heq, hj, _⟩ := h.first
  have hpeer : peer ∈ ((pair files).config i).peers := by
    rw [heq]
    exact List.mem_append_right before List.mem_cons_self
  obtain rfl : peer = if i then "http://b".toList else "http://a".toList := List.mem_singleton.mp hpeer
  have hdial := hj.1
  cases i <;> exact (Option.some.inj hdial).symm

/-- With the file on the second node, a request to the first goes there and ends. -/
theorem a_held_file_ends_the_chain :
    ¬ Endless ((pair fun i => if i then [] else [("files/default/a.txt".toList, "hello".toList)]).Forwards
      Env.plain Images.none announcedURI) true := by
  refine (proxy_chain_ends_iff Images.none announcedURI true).mpr ?_
  generalize hC : (pair fun i => if i then [] else [("files/default/a.txt".toList, "hello".toList)]) = C
  have hlast : ∀ j, ¬ C.Hands Env.plain announcedURI false j := by
    intro j h
    refine absurd h.lacks ?_
    rw [← hC]
    unfold Lacks
    dsimp only
    rw [if_pos (by decide +kernel)]
    decide +kernel
  intro j _ hring
  obtain ⟨k, hk, hback⟩ := Relation.TransGen.head'_iff.mp hring
  cases j with
  | false => exact hlast k hk
  | true =>
    obtain rfl : k = false := by
      subst hC
      exact pair_hands hk
    rcases hback.cases_head with heq | ⟨l, hl, _⟩
    · cases heq
    · exact hlast l hl

end Cluster

end GoFastdfs
