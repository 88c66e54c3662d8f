/-
  GoFastdfs.Router — which handler a request reaches (`initComponent`, `initRouter`, `initTus`
  and the addresses that nodes and answers are built from).

  With group management and a group the requests of the server are below `/group`, without
  it they are at the root; everything else is a download. The page of the server, its
  static files and the resumable uploads take names of their own in the same space, and so
  does `net/http/pprof` on the default mux, which `EnablePprofDebug` makes the server's.

  Proved: the server starts, but for a group named as one of these folders
  (`router_starts_iff`). A request that one node builds for another arrives where it is
  meant exactly if its address, as a URL, has the path where the other keeps the request
  (`peer_requests_arrive_iff`). A published address of a file reaches `Download` unless its
  path is a name or in a folder that the server takes for itself
  (`published_is_downloaded_iff`), as a file of a scene `static` is.
-/

import GoFastdfs.Go.Mux
import GoFastdfs.Address
import GoFastdfs.Deletion

namespace GoFastdfs

open Go (Str Mux Outcome)

inductive Handler where
  | Download
  | Index
  | CheckFilesExist
  | CheckFileExist
  | Upload
  | RemoveFile
  | GetFileInfo
  | Sync
  | Stat
  | RepairStatWeb
  | Status
  | Repair
  | Report
  | BackUp
  | Search
  | ListDir
  | RemoveEmptyDir
  | RepairFileInfo
  | Reload
  | SyncFileInfo
  | GetMd5sForWeb
  | ReceiveMd5s
  | GenGoogleSecret
  | GenGoogleCode
  /-- The files below `./static`. -/
  | static
  /-- The handler of resumable uploads. -/
  | tus
  /-- The handlers of `net/http/pprof`. -/
  | pprof
  deriving DecidableEq, Repr

def actions : List (Str × Handler) :=
  [("check_files_exist".toList, .CheckFilesExist), ("check_file_exist".toList, .CheckFileExist), ("upload".toList, .Upload),
    ("delete".toList, .RemoveFile), ("get_file_info".toList, .GetFileInfo), ("sync".toList, .Sync), ("stat".toList, .Stat),
    ("repair_stat".toList, .RepairStatWeb), ("status".toList, .Status), ("repair".toList, .Repair),
    ("report".toList, .Report), ("backup".toList, .BackUp), ("search".toList, .Search), ("list_dir".toList, .ListDir),
    ("remove_empty_dir".toList, .RemoveEmptyDir), ("repair_fileinfo".toList, .RepairFileInfo),
    ("reload".toList, .Reload), ("syncfile_info".toList, .SyncFileInfo), ("get_md5s_by_date".toList, .GetMd5sForWeb),
    ("receive_md5s".toList, .ReceiveMd5s), ("gen_google_secret".toList, .GenGoogleSecret),
    ("gen_google_code".toList, .GenGoogleCode)]

def CONST_BIG_UPLOAD_PATH_SUFFIX : Str := "/big/upload/".toList

/-- What `net/http/pprof` registers on the default mux. -/
def pprofPatterns : List Str :=
  ["/debug/pprof/".toList, "/debug/pprof/cmdline".toList, "/debug/pprof/profile".toList, "/debug/pprof/symbol".toList,
    "/debug/pprof/trace".toList]

/-- The mux that `initComponent` takes: the default one or a new one. -/
def startMux (enablePprofDebug : Bool) : Mux Handler :=
  if enablePprofDebug then ⟨pprofPatterns.map (·, .pprof), by decide⟩ else .empty

variable (c : Config)

def groupRoute : Str := if c.supportGroupManage = true ∧ c.group ≠ [] then '/' :: c.group else []

def bigDir : Str :=
  if c.supportGroupManage then '/' :: (c.group ++ CONST_BIG_UPLOAD_PATH_SUFFIX) else CONST_BIG_UPLOAD_PATH_SUFFIX

/-- What `initTus`, where it runs, and `initRouter` register. -/
def serverRoutes (enableTus : Bool) : List (Str × Handler) :=
  (if enableTus then [(bigDir c, .tus)] else []) ++
  (if groupRoute c = [] then [(['/'], .Download), ('/' :: "upload.html".toList, .Index)]
    else [(['/'], .Download), (groupRoute c, .Download), (groupRoute c ++ '/' :: "upload.html".toList, .Index)]) ++
  actions.map (fun a => (groupRoute c ++ '/' :: a.1, a.2)) ++
  [(groupRoute c ++ "/static/".toList, .static), ('/' :: (c.group ++ ['/']), .Download)]

/-- The server's mux; none where a registration panics. -/
def initRouter (enableTus enablePprofDebug : Bool) : Option (Mux Handler) :=
  (startMux enablePprofDebug).register (serverRoutes c enableTus)

/-! ## The patterns -/

section
variable {c}

theorem startMux_routes (enablePprofDebug : Bool) :
    (startMux enablePprofDebug).routes = if enablePprofDebug = true then pprofPatterns.map (·, .pprof) else [] := by
  cases enablePprofDebug <;> rfl

theorem mem_routes {enableTus enablePprofDebug : Bool} {m : Mux Handler} (hm : initRouter c enableTus enablePprofDebug = some m)
    {p : Str} {h : Handler} : (p, h) ∈ m.routes ↔
      (enablePprofDebug = true ∧ p ∈ pprofPatterns ∧ h = .pprof) ∨ (p, h) ∈ serverRoutes c enableTus := by
  have hpprof : (p, h) ∈ pprofPatterns.map (·, Handler.pprof) ↔ p ∈ pprofPatterns ∧ h = .pprof := by
    rw [List.mem_map]
    constructor
    · intro hx
      obtain ⟨q, hq, heq⟩ := hx
      cases heq
      exact ⟨hq, rfl⟩
    · intro hx
      exact ⟨p, hx.1, by rw [hx.2]⟩
  rw [(Mux.register_eq_some.mp hm).2.2, List.mem_append, startMux_routes]
  cases enablePprofDebug
  · simp
  · rw [if_pos rfl, hpprof]
    simp

theorem groupRoute_cases : groupRoute c = [] ∧ (c.supportGroupManage = false ∨ c.group = []) ∨
    c.supportGroupManage = true ∧ c.group ≠ [] ∧ groupRoute c = '/' :: c.group := by
  unfold groupRoute
  split_ifs with h
  · exact Or.inr ⟨h.1, h.2, rfl⟩
  · refine Or.inl ⟨rfl, ?_⟩
    rw [not_and_or, not_not] at h
    rcases h with h | h
    · exact Or.inl (by simpa using h)
    · exact Or.inr h

/-- The own names of the server below its place, resumable uploads apart. -/
def ownNames : List Str := "upload.html".toList :: actions.map (·.1)

theorem slash_notMem_ownNames {x : Str} (h : x ∈ ownNames) : '/' ∉ x := by
  revert h
  revert x
  decide

/-- A name of the server's own is no folder. -/
theorem own_not_folder (g : Str) {x : Str} (h : x ∈ ownNames) : (g ++ '/' :: x).getLast? ≠ some '/' := by
  have hne : x ≠ [] := by
    intro heq
    subst heq
    revert h
    decide
  intro hlast
  rw [List.getLast?_append_of_ne_nil _ (List.cons_ne_nil _ _), List.getLast?_cons_of_ne_nil hne] at hlast
  exact slash_notMem_ownNames h (List.mem_of_getLast? hlast)

theorem mem_pages {g slash page p : Str} {h : Handler} :
    (p, h) ∈ (if g = [] then [(slash, Handler.Download), (page, .Index)]
      else [(slash, .Download), (g, .Download), (g ++ page, .Index)]) ↔
      (p = slash ∧ h = .Download) ∨ (g ≠ [] ∧ p = g ∧ h = .Download) ∨ (p = g ++ page ∧ h = .Index) := by
  split_ifs with hg
  · subst hg
    simp
  · simp [hg]

theorem mem_actions_map {g p : Str} {h : Handler} : (p, h) ∈ actions.map (fun a => (g ++ '/' :: a.1, a.2)) ↔
    ∃ a, (a, h) ∈ actions ∧ p = g ++ '/' :: a := by
  rw [List.mem_map]
  constructor
  · intro hx
    obtain ⟨a, ha, heq⟩ := hx
    cases heq
    exact ⟨a.1, ha, rfl⟩
  · intro hx
    obtain ⟨a, ha, rfl⟩ := hx
    exact ⟨(a, h), ha, rfl⟩

theorem mem_serverRoutes {enableTus : Bool} {p : Str} {h : Handler} : (p, h) ∈ serverRoutes c enableTus ↔
    (enableTus = true ∧ p = bigDir c ∧ h = .tus) ∨ (p = ['/'] ∧ h = .Download) ∨
    (groupRoute c ≠ [] ∧ p = groupRoute c ∧ h = .Download) ∨ (p = groupRoute c ++ '/' :: "upload.html".toList ∧ h = .Index) ∨
    (∃ a, (a, h) ∈ actions ∧ p = groupRoute c ++ '/' :: a) ∨ (p = groupRoute c ++ "/static/".toList ∧ h = .static) ∨
    (p = '/' :: (c.group ++ ['/']) ∧ h = .Download) := by
  have htus : (p, h) ∈ (if enableTus = true then [(bigDir c, Handler.tus)] else []) ↔
      enableTus = true ∧ p = bigDir c ∧ h = .tus := by
    cases enableTus <;> simp
  have hlast : ∀ a b : Str, (p, h) ∈ [(a, Handler.static), (b, .Download)] ↔
      (p = a ∧ h = .static) ∨ (p = b ∧ h = .Download) := by simp
  unfold serverRoutes
  rw [List.mem_append, List.mem_append, List.mem_append, mem_actions_map, htus, hlast, mem_pages, or_assoc, or_assoc, or_assoc,
    or_assoc]

/-! ## The start -/

/-- The patterns that are the same under every configuration without a place of its own. -/
def rootPatterns : List Str :=
  ['/'] :: ('/' :: "upload.html".toList) :: (actions.map (fun a => '/' :: a.1) ++ ["/static/".toList])

def placedPatterns : List Str :=
  [] :: ('/' :: "upload.html".toList) :: (actions.map (fun a => '/' :: a.1) ++ ["/static/".toList, ['/']])

theorem rootPatterns_facts : rootPatterns.Nodup ∧ "/static/".toList ∈ rootPatterns ∧
    '/' :: CONST_BIG_UPLOAD_PATH_SUFFIX ∉ rootPatterns ∧
    ∀ p ∈ rootPatterns, p.getLast? = some '/' → p = ['/'] ∨ p = "/static/".toList := by
  decide +kernel

theorem placedPatterns_facts : placedPatterns.Nodup ∧ CONST_BIG_UPLOAD_PATH_SUFFIX ∉ placedPatterns := by
  decide +kernel

theorem nodup_guarded {α : Type} {b : Bool} {x : α} {l : List α} :
    ((if b = true then [x] else []) ++ l).Nodup ↔ (b = true → x ∉ l) ∧ l.Nodup := by
  cases b <;> simp [List.nodup_cons]

theorem map_guarded {b : Prop} [Decidable b] {x : Str × Handler} :
    (if b then [x] else []).map (·.1) = if b then [x.1] else [] := by
  split_ifs <;> rfl

theorem patterns_root (hg : groupRoute c = []) (enableTus : Bool) : (serverRoutes c enableTus).map (·.1) =
    (if enableTus = true then [bigDir c] else []) ++ (rootPatterns ++ ['/' :: (c.group ++ ['/'])]) := by
  simp only [serverRoutes, hg, rootPatterns, List.map_append, List.map_map, map_guarded, if_true, List.map_cons, List.map_nil,
    List.nil_append, List.append_assoc, List.cons_append, Function.comp_def]

theorem patterns_placed (hg : groupRoute c = '/' :: c.group) (enableTus : Bool) : (serverRoutes c enableTus).map (·.1) =
    (if enableTus = true then [bigDir c] else []) ++ ['/'] :: placedPatterns.map ('/' :: c.group ++ ·) := by
  simp only [serverRoutes, hg, placedPatterns, List.map_append, List.map_map, map_guarded,
    if_false, List.map_cons, List.map_nil,
    List.nil_append, List.append_assoc, List.cons_append, Function.comp_def, reduceCtorEq, List.append_nil]

theorem folder_mem_rootPatterns (g : Str) : '/' :: (g ++ ['/']) ∈ rootPatterns ↔ g = "static".toList := by
  obtain ⟨-, hmem, -, hends⟩ := rootPatterns_facts
  constructor
  · intro h
    rcases hends _ h (by rw [← List.cons_append]; exact List.getLast?_concat) with hp | hp
    · simp at hp
    · have hstatic : "/static/".toList = '/' :: ("static".toList ++ ['/']) := by decide
      rw [hstatic, List.cons_inj_right, List.append_left_inj] at hp
      exact hp
  · intro heq
    subst heq
    exact hmem

theorem patterns_root_nodup (hg : groupRoute c = []) (enableTus : Bool) : ((serverRoutes c enableTus).map (·.1)).Nodup ↔
    ¬ (c.supportGroupManage = false ∧ (c.group = "static".toList ∨ enableTus = true ∧ c.group = "big/upload".toList)) := by
  rw [patterns_root hg, nodup_guarded, List.nodup_append]
  have hlast : (∀ a ∈ rootPatterns, ∀ b ∈ ['/' :: (c.group ++ ['/'])], a ≠ b) ↔ c.group ≠ "static".toList := by
    rw [Ne, ← folder_mem_rootPatterns]
    constructor
    · exact fun h hmem => h _ hmem _ (List.mem_singleton_self _) rfl
    · intro h a ha b hb hab
      rw [List.mem_singleton] at hb
      exact h (hb ▸ hab ▸ ha)
  rw [hlast]
  have hsuffix : CONST_BIG_UPLOAD_PATH_SUFFIX = '/' :: ("big/upload".toList ++ ['/']) := by decide
  have hbig : bigDir c ∈ rootPatterns ++ ['/' :: (c.group ++ ['/'])] ↔
      c.supportGroupManage = false ∧ c.group = "big/upload".toList := by
    rw [List.mem_append, List.mem_singleton]
    cases hm : c.supportGroupManage with
    | false =>
      have : bigDir c = '/' :: ("big/upload".toList ++ ['/']) := by rw [← hsuffix]; simp [bigDir, hm]
      rw [this, folder_mem_rootPatterns, List.cons_inj_right, List.append_left_inj]
      have hno : "big/upload".toList ≠ "static".toList := by decide
      simp only [hno, false_or, true_and]
      exact eq_comm
    | true =>
      have hnil : c.group = [] := by
        rcases groupRoute_cases (c := c) with h | h
        · rcases h.2 with h | h
          · rw [hm] at h; cases h
          · exact h
        · rw [hg] at h
          cases h.2.2
      have : bigDir c = '/' :: CONST_BIG_UPLOAD_PATH_SUFFIX := by simp [bigDir, hm, hnil]
      rw [this, hnil]
      have hno := rootPatterns_facts.2.2.1
      simp only [hno, false_or, false_and, iff_false, Bool.true_eq_false]
      decide
  rw [hbig]
  have hstatic : c.supportGroupManage = true → c.group ≠ "static".toList := by
    intro hm
    rcases groupRoute_cases (c := c) with h | h
    · rcases h.2 with h | h
      · rw [hm] at h; cases h
      · rw [h]; decide
    · rw [hg] at h
      cases h.2.2
  simp only [rootPatterns_facts.1, List.nodup_singleton, true_and]
  cases hm : c.supportGroupManage with
  | false =>
    rw [and_comm]
    simp only [true_and, not_or, not_and]
  | true =>
    simp only [Bool.true_eq_false, false_and, not_false_eq_true, implies_true, true_and, iff_true]
    exact hstatic hm

theorem patterns_placed_nodup (hg : groupRoute c = '/' :: c.group) (hne : c.group ≠ []) (hm : c.supportGroupManage = true)
    (enableTus : Bool) : ((serverRoutes c enableTus).map (·.1)).Nodup := by
  have hinj : Function.Injective ('/' :: c.group ++ ·) := List.append_right_injective _
  have hbig : bigDir c = '/' :: c.group ++ CONST_BIG_UPLOAD_PATH_SUFFIX := by simp [bigDir, hm]
  have hroot : ∀ q : Str, '/' :: c.group ++ q ≠ ['/'] := by
    intro q h
    rw [List.cons_append, List.cons_inj_right, List.append_eq_nil_iff] at h
    exact hne h.1
  rw [patterns_placed hg, nodup_guarded, List.nodup_cons, List.nodup_map_iff hinj]
  refine ⟨fun _ => ?_, ?_, placedPatterns_facts.1⟩
  · rw [List.mem_cons, not_or, hbig]
    refine ⟨hroot _, fun h => ?_⟩
    obtain ⟨q, hq, heq⟩ := List.mem_map.mp h
    rw [hinj heq] at hq
    exact placedPatterns_facts.2 hq
  · intro h
    obtain ⟨q, -, heq⟩ := List.mem_map.mp h
    exact hroot q heq

theorem bigDir_ne_nil : bigDir c ≠ [] := by
  unfold bigDir
  split_ifs
  · exact List.cons_ne_nil _ _
  · decide

theorem patterns_ne_nil {enableTus : Bool} : [] ∉ (serverRoutes c enableTus).map (·.1) := by
  intro h
  obtain ⟨⟨p, x⟩, hr, hp⟩ := List.mem_map.mp h
  obtain rfl : p = [] := hp
  rcases mem_serverRoutes.mp hr with h | h | h | h | ⟨a, -, h⟩ | h | h
  · exact bigDir_ne_nil h.2.1.symm
  · cases h.1
  · exact h.1 h.2.1.symm
  · exact List.append_ne_nil_of_right_ne_nil _ (List.cons_ne_nil _ _) h.1.symm
  · exact List.append_ne_nil_of_right_ne_nil _ (List.cons_ne_nil _ _) h.symm
  · exact List.append_ne_nil_of_right_ne_nil _ (by decide) h.1.symm
  · cases h.1

theorem initRouter_isSome {enableTus enablePprofDebug : Bool} : (initRouter c enableTus enablePprofDebug).isSome = true ↔
    (((startMux enablePprofDebug).routes ++ serverRoutes c enableTus).map (·.1)).Nodup := by
  rw [Option.isSome_iff_exists, List.map_append]
  constructor
  · intro h
    obtain ⟨m, hm⟩ := h
    exact (Mux.register_eq_some.mp hm).1
  · intro h
    rw [← List.map_append] at h
    exact ⟨⟨_, h⟩, Mux.register_eq_some.mpr ⟨List.map_append ▸ h, patterns_ne_nil, rfl⟩⟩

theorem serverRoutes_nodup (enableTus : Bool) : ((serverRoutes c enableTus).map (·.1)).Nodup ↔
    ¬ (c.supportGroupManage = false ∧ (c.group = "static".toList ∨ enableTus = true ∧ c.group = "big/upload".toList)) := by
  rcases groupRoute_cases (c := c) with h | ⟨hm, hne, hg⟩
  · exact patterns_root_nodup h.1 enableTus
  · refine iff_of_true (patterns_placed_nodup hg hne hm enableTus) fun h => ?_
    rw [hm] at h
    cases h.1

theorem suffix_of_serverRoutes {enableTus : Bool} {p : Str} {h : Handler} (hmem : (p, h) ∈ serverRoutes c enableTus) :
    (∃ x ∈ CONST_BIG_UPLOAD_PATH_SUFFIX :: "/static/".toList :: ownNames.map ('/' :: ·), x <:+ p) ∨ p = ['/'] ∨
      (groupRoute c ≠ [] ∧ p = groupRoute c) ∨ p = '/' :: (c.group ++ ['/']) := by
  rcases mem_serverRoutes.mp hmem with ⟨-, rfl, -⟩ | ⟨rfl, -⟩ | ⟨hne, rfl, -⟩ | ⟨rfl, -⟩ | ⟨a, ha, rfl⟩ | ⟨rfl, -⟩ | ⟨rfl, -⟩
  · refine Or.inl ⟨_, List.mem_cons_self, ?_⟩
    unfold bigDir
    split_ifs
    · exact (List.suffix_append _ _).trans (List.suffix_cons _ _)
    · exact List.suffix_rfl
  · exact Or.inr (Or.inl rfl)
  · exact Or.inr (Or.inr (Or.inl ⟨hne, rfl⟩))
  · refine Or.inl ⟨'/' :: "upload.html".toList, ?_, List.suffix_append _ _⟩
    exact List.mem_cons_of_mem _ (List.mem_cons_of_mem _ (List.mem_map_of_mem List.mem_cons_self))
  · refine Or.inl ⟨'/' :: a, ?_, List.suffix_append _ _⟩
    refine List.mem_cons_of_mem _ (List.mem_cons_of_mem _ (List.mem_map_of_mem (List.mem_cons_of_mem _ ?_)))
    exact List.mem_map_of_mem (f := (·.1)) ha
  · exact Or.inl ⟨_, List.mem_cons_of_mem _ List.mem_cons_self, List.suffix_append _ _⟩
  · exact Or.inr (Or.inr (Or.inr rfl))

theorem pprof_mem_serverRoutes (enableTus : Bool) :
    (∃ p ∈ pprofPatterns, p ∈ (serverRoutes c enableTus).map (·.1)) ↔
      c.group = "debug/pprof".toList ∨ c.supportGroupManage = true ∧ '/' :: c.group ∈ pprofPatterns := by
  have hown : ∀ p ∈ pprofPatterns,
      ∀ x ∈ CONST_BIG_UPLOAD_PATH_SUFFIX :: "/static/".toList :: ownNames.map ('/' :: ·), ¬ x <:+ p := by decide +kernel
  have hfolder : '/' :: (c.group ++ ['/']) ∈ pprofPatterns ↔ c.group = "debug/pprof".toList := by
    have hends : ∀ p ∈ pprofPatterns, p.getLast? = some '/' → p = '/' :: ("debug/pprof".toList ++ ['/']) := by decide
    constructor
    · intro h
      have hp := hends _ h (by rw [← List.cons_append]; exact List.getLast?_concat)
      rwa [List.cons_inj_right, List.append_left_inj] at hp
    · intro h
      rw [h]
      decide
  constructor
  · intro hx
    obtain ⟨p, hp, hmem⟩ := hx
    obtain ⟨⟨q, h⟩, hr, rfl⟩ := List.mem_map.mp hmem
    rcases suffix_of_serverRoutes hr with ⟨x, hx, hsuf⟩ | hroot | ⟨hne, hplace⟩ | hgroup
    · exact absurd hsuf (hown _ hp x hx)
    · have hno : ['/'] ∉ pprofPatterns := by decide
      exact absurd (hroot ▸ hp) hno
    · rcases groupRoute_cases (c := c) with ⟨hg, -⟩ | ⟨hm, -, hg⟩
      · exact absurd hg hne
      · exact Or.inr ⟨hm, hg ▸ hplace ▸ hp⟩
    · exact Or.inl (hfolder.mp (hgroup ▸ hp))
  · intro hcase
    rcases hcase with hgroup | ⟨hm, hplace⟩
    · refine ⟨'/' :: (c.group ++ ['/']), hfolder.mpr hgroup, List.mem_map.mpr ⟨(_, Handler.Download), ?_, rfl⟩⟩
      exact mem_serverRoutes.mpr (Or.inr (Or.inr (Or.inr (Or.inr (Or.inr (Or.inr ⟨rfl, rfl⟩))))))
    · have hne : c.group ≠ [] := by
        intro h
        rw [h] at hplace
        exact absurd hplace (by decide)
      have hg : groupRoute c = '/' :: c.group := if_pos ⟨hm, hne⟩
      refine ⟨'/' :: c.group, hplace, List.mem_map.mpr ⟨(_, Handler.Download), ?_, rfl⟩⟩
      exact mem_serverRoutes.mpr (Or.inr (Or.inr (Or.inl ⟨by rw [hg]; exact List.cons_ne_nil _ _, hg.symm, rfl⟩)))

end

/-- The server starts unless it keeps its requests at the root and its group has the name of a
    folder there, or the group has the name of a route of the debugger that it takes over. -/
theorem router_starts_iff (enableTus enablePprofDebug : Bool) : (initRouter c enableTus enablePprofDebug).isSome = true ↔
    ¬ (c.supportGroupManage = false ∧ (c.group = "static".toList ∨ enableTus = true ∧ c.group = "big/upload".toList)) ∧
      ¬ (enablePprofDebug = true ∧
        (c.group = "debug/pprof".toList ∨ c.supportGroupManage = true ∧ '/' :: c.group ∈ pprofPatterns)) := by
  have hpprof : ((startMux enablePprofDebug).routes.map (·.1)) = if enablePprofDebug = true then pprofPatterns else [] := by
    rw [startMux_routes]
    split_ifs
    · rw [List.map_map]
      exact List.map_id _
    · rfl
  have hnodup : pprofPatterns.Nodup := by decide
  rw [initRouter_isSome, List.map_append, List.nodup_append, serverRoutes_nodup, hpprof,
    ← pprof_mem_serverRoutes enableTus]
  cases enablePprofDebug with
  | false => simp
  | true =>
    rw [if_pos rfl]
    constructor
    · intro h
      refine ⟨h.2.1, fun hx => ?_⟩
      obtain ⟨-, p, hp, hmem⟩ := hx
      exact h.2.2 p hp p hmem rfl
    · intro h
      refine ⟨hnodup, h.1, fun p hp q hq heq => h.2 ⟨rfl, p, hp, heq ▸ hq⟩⟩

/-! ## The requests of other nodes -/

/-- Where a node supposes the requests of another. -/
def peerPlace : Str := if c.supportGroupManage then '/' :: c.group else []

section
variable {c} {enableTus enablePprofDebug : Bool} {m : Mux Handler}

theorem getRequestURI_eq (action : Str) : getRequestURI c action = peerPlace c ++ '/' :: action := by
  unfold getRequestURI peerPlace
  split_ifs <;> rfl

theorem actions_handler_inj {a b : Str} {h : Handler} (ha : (a, h) ∈ actions) (hb : (b, h) ∈ actions) : a = b := by
  have hnodup : (actions.map (·.2)).Nodup := by decide
  exact congrArg Prod.fst (List.inj_on_of_nodup_map hnodup ha hb rfl)

theorem actions_handler {a : Str} {h : Handler} (ha : (a, h) ∈ actions) :
    h ≠ .Download ∧ h ≠ .Index ∧ h ≠ .static ∧ h ≠ .tus ∧ h ≠ .pprof := by
  have hall : ∀ p ∈ actions, p.2 ≠ .Download ∧ p.2 ≠ .Index ∧ p.2 ≠ .static ∧ p.2 ≠ .tus ∧ p.2 ≠ .pprof := by decide
  exact hall _ ha

theorem mem_routes_action (hm : initRouter c enableTus enablePprofDebug = some m) {p name : Str} {h : Handler}
    (ha : (name, h) ∈ actions) : (p, h) ∈ m.routes ↔ p = groupRoute c ++ '/' :: name := by
  obtain ⟨hd, hi, hs, ht, hpp⟩ := actions_handler ha
  rw [mem_routes hm, mem_serverRoutes]
  constructor
  · intro hcase
    rcases hcase with ⟨-, -, rfl⟩ | ⟨-, -, rfl⟩ | ⟨-, rfl⟩ | ⟨-, -, rfl⟩ | ⟨-, rfl⟩ | ⟨a, hmem, rfl⟩ | ⟨-, rfl⟩ | ⟨-, rfl⟩
    · exact absurd rfl hpp
    · exact absurd rfl ht
    · exact absurd rfl hd
    · exact absurd rfl hd
    · exact absurd rfl hi
    · rw [actions_handler_inj hmem ha]
    · exact absurd rfl hs
    · exact absurd rfl hd
  · intro heq
    subst heq
    exact Or.inr (Or.inr (Or.inr (Or.inr (Or.inr (Or.inl ⟨name, ha, rfl⟩)))))

/-- A request's handler answers at its own pattern and nowhere else. -/
theorem dispatch_action_iff (hm : initRouter c enableTus enablePprofDebug = some m) {name path : Str} {h : Handler}
    (ha : (name, h) ∈ actions) :
    m.dispatch path = .serve h ↔ Go.cleanPath path = path ∧ path = groupRoute c ++ '/' :: name := by
  rw [Mux.dispatch_serve_iff, Mux.matchPath_iff]
  constructor
  · intro hex
    rcases hex with ⟨hclean, -, hpath | ⟨-, pattern, hp, hsub, -⟩⟩
    · exact ⟨hclean, (mem_routes_action hm ha).mp hpath⟩
    · obtain rfl := (mem_routes_action hm ha).mp hp
      exact absurd hsub.1 (own_not_folder _ (List.mem_cons_of_mem _ (List.mem_map_of_mem (f := (·.1)) ha)))
  · intro hex
    obtain ⟨hclean, hpath⟩ := hex
    have hmem := (mem_routes_action hm ha).mpr hpath
    exact ⟨hclean, Mux.redirects_of_mem hmem, Or.inl hmem⟩

theorem pathText_getRequestURI (hgroup : Go.PathText c.group) {name : Str} {h : Handler} (ha : (name, h) ∈ actions) :
    Go.PathText (getRequestURI c name) := by
  have hnames : ∀ a ∈ actions, Go.PathText ('/' :: a.1) := by decide
  have hslash : Go.PathText ['/'] := by decide
  rw [getRequestURI_eq]
  refine Go.PathText.append ?_ (hnames _ ha)
  unfold peerPlace
  split_ifs
  · exact hslash.append hgroup
  · exact fun x hx => by cases hx

/-- A request built by one node reaches what it asks for on another exactly if the path of its
    address is clean and is where that one keeps the request. A group that stands for itself in an
    address has to be kept in one place; under an empty group no node is reached. -/
theorem peer_requests_arrive_iff {c' : Config} (hm : initRouter c' enableTus enablePprofDebug = some m) {name : Str}
    {h : Handler}
    (ha : (name, h) ∈ actions) :
    (m.request (getRequestURI c name) = .serve h ↔ ∃ path, Go.urlPath (getRequestURI c name) = some path ∧
      Go.cleanPath path = path ∧ path = groupRoute c' ++ '/' :: name) ∧
    (Go.PathText c.group → (m.request (getRequestURI c name) = .serve h ↔
      Go.cleanPath (getRequestURI c name) = getRequestURI c name ∧ groupRoute c' = peerPlace c)) ∧
    (c.supportGroupManage = true → c.group = [] → m.request (getRequestURI c name) ≠ .serve h) := by
  have hall : m.request (getRequestURI c name) = .serve h ↔ ∃ path, Go.urlPath (getRequestURI c name) = some path ∧
      Go.cleanPath path = path ∧ path = groupRoute c' ++ '/' :: name := by
    simp only [Mux.request_serve_iff, dispatch_action_iff hm ha]
  have hplain : Go.PathText c.group → (m.request (getRequestURI c name) = .serve h ↔
      Go.cleanPath (getRequestURI c name) = getRequestURI c name ∧ groupRoute c' = peerPlace c) := by
    intro hgroup
    have hplace : getRequestURI c name = groupRoute c' ++ '/' :: name ↔ groupRoute c' = peerPlace c := by
      rw [getRequestURI_eq, List.append_left_inj]
      exact eq_comm
    rw [hall, Go.urlPath_plain (pathText_getRequestURI hgroup ha)]
    simp only [Option.some.injEq, exists_eq_left', hplace]
  refine ⟨hall, hplain, fun hmanage hnil harrives => ?_⟩
  have hclean := ((hplain (by rw [hnil]; exact fun x hx => by cases hx)).mp harrives).1
  have htwo : getRequestURI c name = '/' :: '/' :: name := by
    rw [getRequestURI_eq, peerPlace, if_pos hmanage, hnil]
    rfl
  rw [htwo] at hclean
  exact Go.cleanPath_ne_of_two name hclean

end

def groupConfig : Config := { group := "group1".toList, supportGroupManage := true }

theorem groupConfig_starts (enablePprofDebug : Bool) : ∃ m, initRouter groupConfig true enablePprofDebug = some m := by
  refine Option.isSome_iff_exists.mp ((router_starts_iff groupConfig true enablePprofDebug).mpr ⟨by decide, fun h => ?_⟩)
  exact absurd h.2 (by decide)

/-- Nodes of one group reach each other. -/
theorem upload_arrives_in_group : ∃ m, initRouter groupConfig true true = some m ∧
    m.request (getRequestURI groupConfig "upload".toList) = .serve .Upload := by
  obtain ⟨m, hm⟩ := groupConfig_starts true
  refine ⟨m, hm, (peer_requests_arrive_iff hm (by decide : ("upload".toList, Handler.Upload) ∈ actions)).1.mpr ?_⟩
  exact ⟨"/group1/upload".toList, by decide +kernel, by decide +kernel, by decide⟩

/-! ## The requests for files -/

/-- The folders that are not looked up in the store. -/
def reserved (enableTus enablePprofDebug : Bool) : List Str :=
  (groupRoute c ++ "/static/".toList) :: ((if enableTus then [bigDir c] else []) ++
    if enablePprofDebug then ["/debug/pprof/".toList] else [])

def ownPaths (enablePprofDebug : Bool) : List Str :=
  ownNames.map (groupRoute c ++ '/' :: ·) ++ if enablePprofDebug then pprofPatterns.tail else []

/-- The path is in a reserved folder, and in no longer one of the group. -/
def TakenBy (enableTus enablePprofDebug : Bool) (path : Str) : Prop :=
  ∃ f ∈ reserved c enableTus enablePprofDebug, f <+: path ∧
    ∀ g ∈ [groupRoute c, '/' :: (c.group ++ ['/'])], Mux.Subtree g path → g.length ≤ f.length

/-- The path with a slash behind it is a folder. -/
def SentOn (enableTus enablePprofDebug : Bool) (path : Str) : Prop :=
  path.getLast? ≠ some '/' ∧
    path ++ ['/'] ∈ groupRoute c :: ('/' :: (c.group ++ ['/'])) :: reserved c enableTus enablePprofDebug

section
variable {c} {enableTus enablePprofDebug : Bool} {m : Mux Handler} {path : Str}

/-- The routes, as the requests for files meet them. -/
inductive FileRoute (c : Config) (enableTus enablePprofDebug : Bool) : Str → Handler → Prop
  | root : FileRoute c enableTus enablePprofDebug ['/'] .Download
  | place : groupRoute c ≠ [] → FileRoute c enableTus enablePprofDebug (groupRoute c) .Download
  | group : FileRoute c enableTus enablePprofDebug ('/' :: (c.group ++ ['/'])) .Download
  | folder {f : Str} {h : Handler} : f ∈ reserved c enableTus enablePprofDebug → h ≠ .Download →
      FileRoute c enableTus enablePprofDebug f h
  | own {p : Str} {h : Handler} : p ∈ ownPaths c enablePprofDebug → h ≠ .Download → FileRoute c enableTus enablePprofDebug p h

theorem mem_reserved {f : Str} : f ∈ reserved c enableTus enablePprofDebug ↔
    f = groupRoute c ++ "/static/".toList ∨ (enableTus = true ∧ f = bigDir c) ∨
      enablePprofDebug = true ∧ f = "/debug/pprof/".toList := by
  unfold reserved
  rw [List.mem_cons, List.mem_append]
  cases enableTus <;> cases enablePprofDebug <;> simp

theorem mem_ownPaths {p : Str} : p ∈ ownPaths c enablePprofDebug ↔
    (∃ x ∈ ownNames, p = groupRoute c ++ '/' :: x) ∨ enablePprofDebug = true ∧ p ∈ pprofPatterns.tail := by
  unfold ownPaths
  rw [List.mem_append, List.mem_map]
  refine or_congr (exists_congr fun x => and_congr_right fun _ => eq_comm) ?_
  cases enablePprofDebug <;> simp

theorem route_cases (hm : initRouter c enableTus enablePprofDebug = some m) {p : Str} {h : Handler} (hmem : (p, h) ∈ m.routes) :
    FileRoute c enableTus enablePprofDebug p h := by
  rcases (mem_routes hm).mp hmem with ⟨hd, hp, rfl⟩ | hmem
  · rcases List.mem_cons.mp hp with rfl | hp
    · exact .folder (mem_reserved.mpr (Or.inr (Or.inr ⟨hd, rfl⟩))) (by decide)
    · exact .own (mem_ownPaths.mpr (Or.inr ⟨hd, hp⟩)) (by decide)
  rcases mem_serverRoutes.mp hmem with ⟨ht, rfl, rfl⟩ | ⟨rfl, rfl⟩ | ⟨hne, rfl, rfl⟩ | ⟨rfl, rfl⟩ | ⟨a, ha, rfl⟩ | ⟨rfl, rfl⟩ |
    ⟨rfl, rfl⟩
  · exact .folder (mem_reserved.mpr (Or.inr (Or.inl ⟨ht, rfl⟩))) (by decide)
  · exact .root
  · exact .place hne
  · exact .own (mem_ownPaths.mpr (Or.inl ⟨_, List.mem_cons_self, rfl⟩)) (by decide)
  · refine .own (mem_ownPaths.mpr (Or.inl ⟨a, List.mem_cons_of_mem _ ?_, rfl⟩)) (actions_handler ha).1
    exact List.mem_map_of_mem (f := (·.1)) ha
  · exact .folder (mem_reserved.mpr (Or.inl rfl)) (by decide)
  · exact .group

theorem root_route (hm : initRouter c enableTus enablePprofDebug = some m) : (['/'], Handler.Download) ∈ m.routes :=
  (mem_routes hm).mpr (Or.inr (mem_serverRoutes.mpr (Or.inr (Or.inl ⟨rfl, rfl⟩))))

theorem place_route (hm : initRouter c enableTus enablePprofDebug = some m) (hne : groupRoute c ≠ []) :
    (groupRoute c, Handler.Download) ∈ m.routes :=
  (mem_routes hm).mpr (Or.inr (mem_serverRoutes.mpr (Or.inr (Or.inr (Or.inl ⟨hne, rfl, rfl⟩)))))

theorem group_route (hm : initRouter c enableTus enablePprofDebug = some m) :
    ('/' :: (c.group ++ ['/']), Handler.Download) ∈ m.routes :=
  (mem_routes hm).mpr (Or.inr (mem_serverRoutes.mpr (Or.inr (Or.inr (Or.inr (Or.inr (Or.inr (Or.inr ⟨rfl, rfl⟩))))))))

theorem reserved_route (hm : initRouter c enableTus enablePprofDebug = some m) {f : Str}
    (hf : f ∈ reserved c enableTus enablePprofDebug) : ∃ h, h ≠ .Download ∧ (f, h) ∈ m.routes := by
  simp only [mem_routes hm, mem_serverRoutes]
  rcases mem_reserved.mp hf with rfl | ⟨ht, rfl⟩ | ⟨hd, rfl⟩
  · exact ⟨.static, by decide, Or.inr (Or.inr (Or.inr (Or.inr (Or.inr (Or.inr (Or.inl ⟨rfl, rfl⟩))))))⟩
  · exact ⟨.tus, by decide, Or.inr (Or.inl ⟨ht, rfl, rfl⟩)⟩
  · exact ⟨.pprof, by decide, Or.inl ⟨hd, List.mem_cons_self, rfl⟩⟩

theorem own_route (hm : initRouter c enableTus enablePprofDebug = some m) {p : Str} (hp : p ∈ ownPaths c enablePprofDebug) :
    ∃ h, h ≠ .Download ∧ (p, h) ∈ m.routes := by
  simp only [mem_routes hm, mem_serverRoutes]
  rcases mem_ownPaths.mp hp with ⟨x, hx, rfl⟩ | ⟨hd, hp⟩
  · rcases List.mem_cons.mp hx with rfl | hx
    · exact ⟨.Index, by decide, Or.inr (Or.inr (Or.inr (Or.inr (Or.inl ⟨rfl, rfl⟩))))⟩
    · obtain ⟨a, ha, rfl⟩ := List.mem_map.mp hx
      exact ⟨a.2, (actions_handler ha).1, Or.inr (Or.inr (Or.inr (Or.inr (Or.inr (Or.inl ⟨a.1, ha, rfl⟩)))))⟩
  · exact ⟨.pprof, by decide, Or.inl ⟨hd, List.mem_of_mem_tail hp, rfl⟩⟩

theorem reserved_folder {f : Str} (hf : f ∈ reserved c enableTus enablePprofDebug) : f.getLast? = some '/' ∧ 1 < f.length := by
  have hstatic : "/static/".toList = "/static".toList ++ ['/'] := by decide
  have hsuffix : CONST_BIG_UPLOAD_PATH_SUFFIX = "/big/upload".toList ++ ['/'] := by decide
  rcases mem_reserved.mp hf with rfl | ⟨-, rfl⟩ | ⟨-, rfl⟩
  · rw [hstatic, ← List.append_assoc]
    exact ⟨List.getLast?_concat, by simp⟩
  · unfold bigDir
    rw [hsuffix]
    split_ifs
    · rw [← List.append_assoc, ← List.cons_append]
      exact ⟨List.getLast?_concat, by simp⟩
    · decide
  · decide

theorem own_no_folder {p : Str} (hp : p ∈ ownPaths c enablePprofDebug) : p.getLast? ≠ some '/' := by
  have hpprof : ∀ p ∈ pprofPatterns.tail, p.getLast? ≠ some '/' := by decide
  rcases mem_ownPaths.mp hp with ⟨x, hx, rfl⟩ | ⟨-, hp⟩
  · exact own_not_folder _ hx
  · exact hpprof p hp

/-- A folder of downloads as long as the reserved folder that the path is in. -/
theorem TakenBy.no_longer (hm : initRouter c enableTus enablePprofDebug = some m) {f W : Str}
    (hf : f ∈ reserved c enableTus enablePprofDebug) (hpre : f <+: path)
    (hmax : ∀ g ∈ [groupRoute c, '/' :: (c.group ++ ['/'])], Mux.Subtree g path → g.length ≤ f.length)
    (hW : (W, Handler.Download) ∈ m.routes) (hsub : Mux.Subtree W path) : ¬ f.length ≤ W.length := by
  intro hlen
  obtain ⟨h, hne, hroute⟩ := reserved_route hm hf
  have hlonger : W.length ≤ f.length := by
    cases route_cases hm hW with
    | root => exact (reserved_folder hf).2.le
    | place => exact hmax _ List.mem_cons_self hsub
    | group => exact hmax _ (List.mem_cons_of_mem _ (List.mem_singleton_self _)) hsub
    | folder _ hno => exact absurd rfl hno
    | own _ hno => exact absurd rfl hno
  have hfW : f = W := (List.prefix_of_prefix_length_le hpre hsub.2 hlen).eq_of_length (le_antisymm hlen hlonger)
  exact hne (congrArg Prod.snd (Mux.routes_inj hroute hW hfW))

/-- Served by `Download` and not the place of the group, a path is no one else's. -/
theorem not_taken_of_serve (hm : initRouter c enableTus enablePprofDebug = some m) (hplace : path ≠ groupRoute c)
    (hred : m.redirects path = false) (hmatch : m.matchPath path = some .Download) :
    path ∉ ownPaths c enablePprofDebug ∧ ¬ TakenBy c enableTus enablePprofDebug path ∧
      ¬ SentOn c enableTus enablePprofDebug path := by
  have hregistered : ∀ h, (path, h) ∈ m.routes → h = .Download ∧ path.getLast? = some '/' := by
    intro h hmem
    obtain rfl : Handler.Download = h := Option.some.inj (hmatch.symm.trans (Mux.matchPath_iff.mpr (Or.inl hmem)))
    refine ⟨rfl, ?_⟩
    cases route_cases hm hmem with
    | root => rfl
    | place => exact absurd rfl hplace
    | group => rw [← List.cons_append]; exact List.getLast?_concat
    | folder _ hno => exact absurd rfl hno
    | own _ hno => exact absurd rfl hno
  refine ⟨fun hown => ?_, fun htaken => ?_, fun hsent => ?_⟩
  · obtain ⟨h, hne, hmem⟩ := own_route hm hown
    exact hne (hregistered h hmem).1
  · obtain ⟨f, hf, hpre, hmax⟩ := htaken
    obtain ⟨h, -, hroute⟩ := reserved_route hm hf
    rcases Mux.matchPath_iff.mp hmatch with hmem | ⟨-, W, hW, hsub, hlong⟩
    · exact TakenBy.no_longer hm hf hpre hmax hmem ⟨(hregistered _ hmem).2, List.prefix_rfl⟩ hpre.length_le
    · exact TakenBy.no_longer hm hf hpre hmax hW hsub (hlong _ hroute ⟨(reserved_folder hf).1, hpre⟩)
  · obtain ⟨hlast, hmem⟩ := hsent
    have hfolder : ∃ h, (path ++ ['/'], h) ∈ m.routes := by
      rcases List.mem_cons.mp hmem with hp | hmem
      · exact ⟨.Download, hp ▸ place_route hm (by rw [← hp]; simp)⟩
      rcases List.mem_cons.mp hmem with hp | hmem
      · exact ⟨.Download, hp ▸ group_route hm⟩
      · obtain ⟨h, -, hroute⟩ := reserved_route hm hmem
        exact ⟨h, hroute⟩
    have hnone : m.find path = none := by
      rw [← Option.not_isSome_iff_eq_none, Mux.find_isSome]
      intro hex
      obtain ⟨h, hroute⟩ := hex
      exact hlast (hregistered h hroute).2
    have : m.redirects path = true := by
      simp only [Mux.redirects, hnone, Option.isNone_none, Mux.find_isSome.mpr hfolder, Bool.true_and, bne_iff_ne]
      exact hlast
    rw [hred] at this
    cases this

/-- What is no one else's is served by `Download`. -/
theorem serve_of_not_taken (hm : initRouter c enableTus enablePprofDebug = some m) (hclean : Go.cleanPath path = path)
    (hown : path ∉ ownPaths c enablePprofDebug) (htaken : ¬ TakenBy c enableTus enablePprofDebug path)
    (hsent : ¬ SentOn c enableTus enablePprofDebug path) :
    m.redirects path = false ∧ m.matchPath path = some .Download := by
  have hroot : ['/'] <+: path := hclean ▸ Go.cleanPath_rooted path
  constructor
  · rw [← Bool.not_eq_true]
    intro hred
    simp only [Mux.redirects, Bool.and_eq_true, Mux.find_isSome, bne_iff_ne] at hred
    obtain ⟨⟨-, h, hmem⟩, hlast⟩ := hred
    generalize hq : path ++ ['/'] = q at hmem
    cases route_cases hm hmem with
    | root =>
      have hnil : path = [] := by simpa using hq
      rw [hnil] at hroot
      exact absurd hroot (by decide)
    | place => exact hsent ⟨hlast, hq ▸ List.mem_cons_self⟩
    | group => exact hsent ⟨hlast, hq ▸ List.mem_cons_of_mem _ List.mem_cons_self⟩
    | folder hf => exact hsent ⟨hlast, hq ▸ List.mem_cons_of_mem _ (List.mem_cons_of_mem _ hf)⟩
    | own hp => exact own_no_folder hp (hq ▸ List.getLast?_concat)
  · -- a longest folder is no reserved one
    have hfolder : ∀ f h, (f, h) ∈ m.routes → f <+: path → (∀ r ∈ m.routes, Mux.Subtree r.1 path → r.1.length ≤ f.length) →
        f ∉ reserved c enableTus enablePprofDebug := by
      intro f h hmem hpre hmax hf
      refine htaken ⟨f, hf, hpre, fun g hg hsub => ?_⟩
      rcases List.mem_cons.mp hg with rfl | hg
      · refine hmax _ (place_route hm fun hnil => ?_) hsub
        rw [hnil] at hsub
        exact absurd hsub.1 (by decide)
      · rw [List.mem_singleton.mp hg] at hsub ⊢
        exact hmax _ (group_route hm) hsub
    by_cases hregistered : ∃ h, (path, h) ∈ m.routes
    · obtain ⟨h, hmem⟩ := hregistered
      refine Mux.matchPath_iff.mpr (Or.inl ?_)
      have hno := hfolder path h hmem List.prefix_rfl fun r _ hsub => hsub.2.length_le
      cases route_cases hm hmem with
      | root | place | group => exact hmem
      | folder hf => exact absurd hf hno
      | own hp => exact absurd hp hown
    · obtain ⟨⟨W, h⟩, hlong⟩ := Mux.longest_of_mem (root_route hm) ⟨rfl, hroot⟩
      obtain ⟨hW, hsub, hmax⟩ := Mux.longest_eq_some.mp hlong
      have hno := hfolder W h hW hsub.2 hmax
      refine Mux.matchPath_iff.mpr (Or.inr ⟨fun h' hh' => hregistered ⟨h', hh'⟩, W, ?_, hsub, hmax⟩)
      cases route_cases hm hW with
      | root | place | group => exact hW
      | folder hf => exact absurd hf hno
      | own hp => exact absurd hsub.1 (own_no_folder hp)

/-- Every path is served by `Download` but those that are the server's own, those in its folders,
    and those that are sent on to a folder. -/
theorem dispatch_download_iff (hm : initRouter c enableTus enablePprofDebug = some m) :
    m.dispatch path = .serve .Download ↔ Go.cleanPath path = path ∧ (path = groupRoute c ∨
      path ∉ ownPaths c enablePprofDebug ∧ ¬ TakenBy c enableTus enablePprofDebug path ∧
        ¬ SentOn c enableTus enablePprofDebug path) := by
  rw [Mux.dispatch_serve_iff]
  refine and_congr_right fun hclean => ⟨fun hserve => ?_, fun hcase => ?_⟩
  · by_cases hplace : path = groupRoute c
    · exact Or.inl hplace
    · exact Or.inr (not_taken_of_serve hm hplace hserve.1 hserve.2)
  · rcases hcase with hplace | ⟨hown, htaken, hsent⟩
    · have hroot : ['/'] <+: path := hclean ▸ Go.cleanPath_rooted path
      have hne : groupRoute c ≠ [] := fun hnil => absurd (hnil ▸ hplace ▸ hroot) (by decide)
      have hmem := place_route hm hne
      rw [hplace]
      exact ⟨Mux.redirects_of_mem hmem, Mux.matchPath_iff.mpr (Or.inl hmem)⟩
    · exact serve_of_not_taken hm hclean hown htaken hsent

/-- The published address of a file reaches the store unless it is no URL, or its path is not
    clean or one that the server takes for itself. -/
theorem published_is_downloaded_iff (hm : initRouter c enableTus enablePprofDebug = some m) (fi : FileInfo) :
    m.request ('/' :: resultPath c fi) = .serve .Download ↔ ∃ path, Go.urlPath ('/' :: resultPath c fi) = some path ∧
      Go.cleanPath path = path ∧ (path = groupRoute c ∨ path ∉ ownPaths c enablePprofDebug ∧
        ¬ TakenBy c enableTus enablePprofDebug path ∧ ¬ SentOn c enableTus enablePprofDebug path) := by
  simp only [Mux.request_serve_iff, dispatch_download_iff hm]

/-- A file of a scene named `static` is stored and published but not served. -/
theorem static_scene_is_not_downloaded :
    let fi : FileInfo := { name := "a".toList, path := "files/static/20200101".toList }
    ∃ m, initRouter groupConfig true false = some m ∧ m.request ('/' :: resultPath groupConfig fi) ≠ .serve .Download := by
  intro fi
  obtain ⟨m, hm⟩ := groupConfig_starts false
  refine ⟨m, hm, fun h => ?_⟩
  have haddress : Go.urlPath ('/' :: resultPath groupConfig fi) = some "/group1/static/20200101/a".toList := by decide +kernel
  obtain ⟨path, hpath, -, hcase⟩ := (published_is_downloaded_iff hm fi).mp h
  obtain rfl := Option.some.inj (haddress.symm.trans hpath)
  have hplace : "/group1/static/20200101/a".toList ≠ groupRoute groupConfig := by decide
  obtain ⟨-, htaken, -⟩ := hcase.resolve_left hplace
  exact htaken ⟨"/group1/static/".toList, by decide, by decide, by decide⟩

end

end GoFastdfs
