/-
  GoFastdfs.Reload — the configuration of a running server (`config.go`, `InitServer`,
  `initComponent`, `Reload`).

  `InitServer` parses `cfg.json`, fills in the queue size and the peer id, builds the static
  file handler and calls `initComponent`, which derives the server's own address, the peers
  and the scenes and fills in the other numbers. `Reload` parses again and calls only
  `initComponent`, on the server as it is. How a text decodes is a parameter, and so is what
  `initComponent` sets up beside the configuration on the first call (the router, the
  statistics, resumable uploads).

  Proved: a server that was started with one configuration and reloads another with the same
  address ends as one started with that other exactly if it names its queue size and its peer
  id, keeps the group's prefix and every scene of the first, and its own address is given or
  can be derived, unless the first gave none either (`reload_is_restart_iff`).
-/

import GoFastdfs.Queues
import GoFastdfs.Request

namespace GoFastdfs

open Go (Str)

structure Mail where
  user : Str := []
  password : Str := []
  host : Str := []
  deriving DecidableEq

structure Proxy where
  dir : Str := []
  addr : Str := []
  origin : Str := []
  deriving DecidableEq

/-- A decoded `cfg.json`; a field the text does not name is zero. -/
structure GlobalConfig where
  addr : Str := []
  peers : List Str := []
  enableHttps : Bool := false
  group : Str := []
  renameFile : Bool := false
  showDir : Bool := false
  extensions : List Str := []
  refreshInterval : Int := 0
  enableWebUpload : Bool := false
  downloadDomain : Str := []
  enableCustomPath : Bool := false
  scenes : List Str := []
  alarmReceivers : List Str := []
  defaultScene : Str := []
  mail : Mail := {}
  alarmUrl : Str := []
  downloadUseToken : Bool := false
  downloadTokenExpire : Int := 0
  queueSize : Int := 0
  autoRepair : Bool := false
  host : Str := []
  fileSumArithmetic : Str := []
  peerId : Str := []
  supportGroupManage : Bool := false
  adminIps : List Str := []
  adminKey : Str := []
  enableMergeSmallFile : Bool := false
  enableMigrate : Bool := false
  enableDistinctFile : Bool := false
  readOnly : Bool := false
  enableCrossOrigin : Bool := false
  enableGoogleAuth : Bool := false
  authUrl : Str := []
  enableDownloadAuth : Bool := false
  defaultDownload : Bool := false
  enableTus : Bool := false
  syncTimeout : Int := 0
  enableFsNotify : Bool := false
  enableDiskCache : Bool := false
  connectTimeout : Bool := false
  readTimeout : Int := 0
  writeTimeout : Int := 0
  idleTimeout : Int := 0
  readHeaderTimeout : Int := 0
  syncWorker : Int := 0
  uploadWorker : Int := 0
  uploadQueueSize : Int := 0
  retryCount : Int := 0
  syncDelay : Int := 0
  watchChanSize : Int := 0
  imageMaxWidth : Int := 0
  imageMaxHeight : Int := 0
  proxies : List Proxy := []
  enablePprofDebug : Bool := false
  enableTrimFileNameSpecialChar : Bool := false
  deriving DecidableEq

/-- What a process reads off its environment and its machine. -/
structure Machine where
  /-- `GO_FASTDFS_IP`. -/
  envIp : Str := []
  publicIp : Str := []
  /-- `GO_FASTDFS_PEER_ID`. -/
  envPeerId : Str := []
  numCPU : Int := 1

def Machine.ip (m : Machine) : Str := if m.envIp = [] then m.publicIp else m.envIp

/-! ## Addresses in a text -/

def digits (s : Str) : Option (Str × Str) :=
  if s.takeWhile Char.isDigit = [] then none else some (s.takeWhile Char.isDigit, s.dropWhile Char.isDigit)

def digitsDot (s : Str) : Option (Str × Str) :=
  match digits s with
  | some (n, '.' :: rest) => some (n ++ ['.'], rest)
  | _ => none

/-- `\d+\.\d+\.\d+\.\d+` at the start of a text, and the rest. -/
def dotted (s : Str) : Option (Str × Str) := do
  let (a, s) ← digitsDot s
  let (b, s) ← digitsDot s
  let (d, s) ← digitsDot s
  let (e, s) ← digits s
  pure (a ++ b ++ d ++ e, s)

def dottedLoop : Nat → Str → List Str
  | 0, _ => []
  | n + 1, s =>
    match dotted s, s with
    | some (m, rest), _ => m :: dottedLoop n rest
    | none, _ :: rest => dottedLoop n rest
    | none, [] => []

def findAllDotted (s : Str) : List Str := dottedLoop s.length s

/-! ## Loading -/

/-- `ParseConfig` of a decoded text: every extension begins with a dot. -/
def parseConfig (cfg : GlobalConfig) : GlobalConfig :=
  { cfg with extensions := cfg.extensions.map fun e => if Go.hasPrefix e ['.'] then e else '.' :: e }

structure Loaded where
  config : GlobalConfig
  host : Str := []
  sceneMap : Store Str Str := ∅
  /-- What `staticHandler` strips off a path. -/
  staticPrefix : Str := []

def scenePair (s : Str) : Option (Str × Str) :=
  match s.splitOn ':' with
  | [name, secret] => some (name, secret)
  | _ => none

def putScenes (m : Store Str Str) (scenes : List Str) : Store Str Str :=
  scenes.foldl (fun m s =>
    match scenePair s with
    | some (name, secret) => m.put name secret
    | none => m) m

/-- The peers, without those at the machine's own address. -/
def otherPeers (ip : Str) (peers : List Str) : List Str :=
  peers.filterMap fun peer =>
    if (findAllDotted peer).contains ip || (findAllDotted peer).contains "127.0.0.1".toList then none
    else some (if Go.hasPrefix peer "http".toList then peer else "http://".toList ++ peer)

def orDefault (n default : Int) : Int := if n = 0 then default else n

/-- The numbers `initComponent` fills in. -/
def fillDefaults (m : Machine) (cfg : GlobalConfig) : GlobalConfig :=
  { cfg with
    readTimeout := orDefault cfg.readTimeout (60 * 10)
    writeTimeout := orDefault cfg.writeTimeout (60 * 10)
    syncWorker := orDefault cfg.syncWorker 200
    uploadWorker := orDefault cfg.uploadWorker (if m.numCPU < 4 then 8 else m.numCPU + 4)
    uploadQueueSize := orDefault cfg.uploadQueueSize 200
    retryCount := orDefault cfg.retryCount 3
    syncDelay := orDefault cfg.syncDelay 60
    watchChanSize := orDefault cfg.watchChanSize 100000
    imageMaxHeight := orDefault cfg.imageMaxHeight 2000
    imageMaxWidth := orDefault cfg.imageMaxWidth 2000 }

def ownHost (m : Machine) (addr : Str) : Option Str :=
  match addr.splitOn ':' with
  | [_, port] => some ("http://".toList ++ m.ip ++ ':' :: port)
  | _ => none

namespace Loaded

/-- `server.host` and `Config().Host`. -/
def initHost (m : Machine) (s : Loaded) : Loaded :=
  if s.config.host = [] then
    match ownHost m s.config.addr with
    | some host => { s with host := host, config := { s.config with host := host } }
    | none => s
  else if Go.hasPrefix s.config.host "http".toList then { s with host := s.config.host }
  else { s with host := "http://".toList ++ s.config.host }

def initComponent (m : Machine) (s : Loaded) : Loaded :=
  let s := s.initHost m
  { s with
    config := fillDefaults m { s.config with peers := otherPeers m.ip s.config.peers }
    sceneMap := putScenes s.sceneMap s.config.scenes }

/-- `InitServer` with the digit it draws for a peer id. -/
def initServer (m : Machine) (draw : Int) (cfg : GlobalConfig) : Loaded :=
  let cfg := parseConfig cfg
  let cfg := if cfg.queueSize = 0 then { cfg with queueSize := (CONST_QUEUE_SIZE : Int) } else cfg
  let cfg :=
    if cfg.peerId = [] then { cfg with peerId := if m.envPeerId = [] then Go.itoa draw else m.envPeerId } else cfg
  initComponent m
    { config := cfg
      staticPrefix := if cfg.supportGroupManage then '/' :: (cfg.group ++ ['/']) else ['/'] }

end Loaded

inductive ReloadEnd where
  | notPermitted
  | failed (message : Str)
  | config (cfg : GlobalConfig)
  | ok
  | usage
  | silent

structure ConfigFile where
  text : Option Str
  readError : Str := []
  /-- The disk takes what is written. -/
  writable : Bool := true
  decode : Str → Except Str GlobalConfig
  encode : GlobalConfig → Str

/-- `Reload`; `isPeer` is the answer of `IsPeer`. -/
def Loaded.reload (m : Machine) (s : Loaded) (f : ConfigFile) (r : Request) (isPeer : Bool) :
    ReloadEnd × ConfigFile × Loaded :=
  let cfgjson := r.formValue "cfg".toList
  let action := r.formValue "action".toList
  let key := r.formValue "key".toList
  if isPeer = false then (.notPermitted, f, s)
  else if key = [] then (.failed "(error)parameter key require".toList, f, s)
  else if key ≠ s.config.adminKey then (.failed "(error)key is not correct".toList, f, s)
  else if action = "get".toList then (.config s.config, f, s)
  else if action = "set".toList then
    if cfgjson = [] then (.failed "(error)parameter cfg(json) require".toList, f, s) else
    match f.decode cfgjson with
    | .error e => (.failed e, f, s)
    | .ok cfg => (.ok, if f.writable then { f with text := some (f.encode cfg) } else f, s)
  else if action = "reload".toList then
    match f.text with
    | none => (.failed f.readError, f, s)
    | some text =>
      match f.decode text with
      | .error e => (.failed e, f, s)
      | .ok cfg => (.ok, f, { s with config := parseConfig cfg }.initComponent m)
  else if action = [] then (.usage, f, s)
  else (.silent, f, s)

/-! ## Reload and restart -/

structure Loaded.Same (s t : Loaded) : Prop where
  config : s.config = t.config
  host : s.host = t.host
  sceneMap : ∀ name, s.sceneMap.get name = t.sceneMap.get name
  staticPrefix : s.staticPrefix = t.staticPrefix

def sceneNames (scenes : List Str) : List Str := scenes.filterMap fun s => (scenePair s).map (·.1)

/-- When a reload of `new` on a server started with `old` is as good as a restart. -/
structure Reloadable (old new : GlobalConfig) : Prop where
  queueSize : new.queueSize ≠ 0
  peerId : new.peerId ≠ []
  groupManage : old.supportGroupManage = new.supportGroupManage
  group : new.supportGroupManage = true → old.group = new.group
  scenes : ∀ name ∈ sceneNames old.scenes, name ∈ sceneNames new.scenes
  host : new.host ≠ [] ∨ (∃ a port, new.addr.splitOn ':' = [a, port]) ∨ old.host = []

/-! ## Scenes -/

theorem putScenes_cons (m : Store Str Str) (s : Str) (scenes : List Str) :
    putScenes m (s :: scenes) = putScenes (match scenePair s with
      | some (name, secret) => m.put name secret
      | none => m) scenes :=
  rfl

/-- A scene that the list names has its secret from the list, any other keeps what it had. -/
theorem get_putScenes (name : Str) : ∀ (scenes : List Str) (m m' : Store Str Str),
    (name ∈ sceneNames scenes ∨ m.get name = m'.get name) →
      (putScenes m scenes).get name = (putScenes m' scenes).get name
  | [], _, _, h => by
    rcases h with h | h
    · cases h
    · exact h
  | s :: scenes, m, m', h => by
    rw [putScenes_cons, putScenes_cons]
    refine get_putScenes name scenes _ _ ?_
    cases hp : scenePair s with
    | none => simpa [sceneNames, hp] using h
    | some x =>
      by_cases hx : name = x.1
      · right
        dsimp only
        rw [hx, Store.get_put_self, Store.get_put_self]
      · rcases h with h | h
        · have hmem : name = x.1 ∨ name ∈ sceneNames scenes := by simpa [sceneNames, hp] using h
          exact Or.inl (hmem.resolve_left hx)
        · right
          dsimp only
          rw [Store.get_put_ne _ _ hx, Store.get_put_ne _ _ hx, h]

theorem get_putScenes_of_notMem {name : Str} : ∀ {scenes : List Str} (m : Store Str Str), name ∉ sceneNames scenes →
    (putScenes m scenes).get name = m.get name
  | [], _, _ => rfl
  | s :: scenes, m, h => by
    rw [putScenes_cons]
    cases hp : scenePair s with
    | none => exact get_putScenes_of_notMem m (by simpa [sceneNames, hp] using h)
    | some x =>
      have hne : name ≠ x.1 ∧ name ∉ sceneNames scenes := by simpa [sceneNames, hp] using h
      rw [get_putScenes_of_notMem _ hne.2]
      exact Store.get_put_ne _ _ hne.1

theorem get_putScenes_of_mem {name : Str} : ∀ {scenes : List Str} (m : Store Str Str), name ∈ sceneNames scenes →
    (putScenes m scenes).get name ≠ none
  | s :: scenes, m, h => by
    rw [putScenes_cons]
    by_cases hmem : name ∈ sceneNames scenes
    · exact get_putScenes_of_mem _ hmem
    · rw [get_putScenes_of_notMem _ hmem]
      cases hp : scenePair s with
      | none => exact absurd (by simpa [sceneNames, hp] using h) hmem
      | some x =>
        have hx : name = x.1 ∨ name ∈ sceneNames scenes := by simpa [sceneNames, hp] using h
        dsimp only
        rw [hx.resolve_right hmem, Store.get_put_self]
        simp

/-- A list put over another leaves the other's scenes behind. -/
theorem putScenes_same_iff (old new : List Str) :
    (∀ name, (putScenes (putScenes ∅ old) new).get name = (putScenes ∅ new).get name) ↔
      ∀ name ∈ sceneNames old, name ∈ sceneNames new := by
  constructor
  · intro h name hold
    by_contra hnew
    have hname := h name
    rw [get_putScenes_of_notMem _ hnew, get_putScenes_of_notMem _ hnew, Store.get_empty] at hname
    exact get_putScenes_of_mem _ hold hname
  · intro h name
    refine get_putScenes name new _ _ ?_
    by_cases hold : name ∈ sceneNames old
    · exact Or.inl (h name hold)
    · exact Or.inr (get_putScenes_of_notMem _ hold)

/-! ## The two ways -/

def completed (m : Machine) (cfg : GlobalConfig) : GlobalConfig :=
  fillDefaults m { cfg with
    peers := otherPeers m.ip cfg.peers
    host := if cfg.host = [] then (ownHost m cfg.addr).getD [] else cfg.host }

def addressOf (m : Machine) (cfg : GlobalConfig) (before : Str) : Str :=
  if cfg.host = [] then (ownHost m cfg.addr).getD before
  else if Go.hasPrefix cfg.host "http".toList then cfg.host else "http://".toList ++ cfg.host

theorem initComponent_eq (m : Machine) (s : Loaded) : s.initComponent m =
    { config := completed m s.config
      host := addressOf m s.config s.host
      sceneMap := putScenes s.sceneMap s.config.scenes
      staticPrefix := s.staticPrefix } := by
  unfold Loaded.initComponent Loaded.initHost completed addressOf
  by_cases hhost : s.config.host = []
  · rw [if_pos hhost, if_pos hhost, if_pos hhost]
    cases ownHost m s.config.addr with
    | none => simp [hhost]
    | some host => rfl
  · rw [if_neg hhost, if_neg hhost, if_neg hhost]
    split <;> rfl

/-- What `InitServer` fills in before `initComponent`. -/
def started (m : Machine) (draw : Int) (cfg : GlobalConfig) : GlobalConfig :=
  { parseConfig cfg with
    queueSize := orDefault cfg.queueSize (CONST_QUEUE_SIZE : Int)
    peerId := if cfg.peerId = [] then (if m.envPeerId = [] then Go.itoa draw else m.envPeerId) else cfg.peerId }

def staticPrefixOf (cfg : GlobalConfig) : Str := if cfg.supportGroupManage then '/' :: (cfg.group ++ ['/']) else ['/']

theorem initServer_eq (m : Machine) (draw : Int) (cfg : GlobalConfig) : Loaded.initServer m draw cfg =
    { config := completed m (started m draw cfg)
      host := addressOf m cfg []
      sceneMap := putScenes ∅ cfg.scenes
      staticPrefix := staticPrefixOf cfg } := by
  have hcfg : (let cfg := parseConfig cfg
      let cfg := if cfg.queueSize = 0 then { cfg with queueSize := (CONST_QUEUE_SIZE : Int) } else cfg
      if cfg.peerId = [] then { cfg with peerId := if m.envPeerId = [] then Go.itoa draw else m.envPeerId } else cfg) =
      started m draw cfg := by
    unfold started orDefault parseConfig
    by_cases hq : cfg.queueSize = 0 <;> by_cases hp : cfg.peerId = [] <;> simp [hq, hp]
  unfold Loaded.initServer
  dsimp only at hcfg ⊢
  rw [hcfg, initComponent_eq]
  rfl

theorem peerId_ne_nil (m : Machine) (draw : Int) (cfg : GlobalConfig) : (started m draw cfg).peerId ≠ [] := by
  have hdraw : Go.itoa draw ≠ [] := by
    cases draw with
    | ofNat n => exact Go.itoa_ne_nil n
    | negSucc n => exact List.cons_ne_nil _ _
  unfold started
  dsimp only
  split
  · split
    · exact hdraw
    · assumption
  · assumption

/-- The configurations agree where nothing was left for `InitServer` to fill in. -/
theorem completed_same_iff (m : Machine) (draw : Int) (new : GlobalConfig) :
    completed m (parseConfig new) = completed m (started m draw new) ↔ new.queueSize ≠ 0 ∧ new.peerId ≠ [] := by
  constructor
  · intro h
    constructor
    · intro hq
      have hsize : (completed m (parseConfig new)).queueSize = (completed m (started m draw new)).queueSize := by rw [h]
      have hsize' : new.queueSize = orDefault new.queueSize (CONST_QUEUE_SIZE : Int) := hsize
      rw [hq] at hsize'
      exact absurd hsize' (by decide)
    · intro hp
      have hid : (completed m (parseConfig new)).peerId = (completed m (started m draw new)).peerId := by rw [h]
      exact peerId_ne_nil m draw new (hid.symm.trans hp)
  · intro hex
    obtain ⟨hq, hp⟩ := hex
    have hsame : started m draw new = parseConfig new := by
      simp [started, orDefault, hq, hp, parseConfig]
    rw [hsame]

theorem staticPrefix_same_iff (old new : GlobalConfig) : staticPrefixOf old = staticPrefixOf new ↔
    old.supportGroupManage = new.supportGroupManage ∧ (new.supportGroupManage = true → old.group = new.group) := by
  unfold staticPrefixOf
  cases old.supportGroupManage <;> cases new.supportGroupManage <;> simp

theorem ownHost_eq_none_iff (m : Machine) (addr : Str) : ownHost m addr = none ↔ ¬ ∃ a port, addr.splitOn ':' = [a, port] := by
  unfold ownHost
  split
  · rename_i a port h
    exact ⟨fun hn => (by cases hn), fun hn => absurd ⟨a, port, h⟩ hn⟩
  · rename_i h
    exact ⟨fun _ ⟨a, port, e⟩ => h a port e, fun _ => rfl⟩

theorem addressOf_ne_nil {m : Machine} {cfg : GlobalConfig} (h : cfg.host ≠ []) (before : Str) :
    addressOf m cfg before ≠ [] := by
  unfold addressOf
  rw [if_neg h]
  split
  · exact h
  · simp

/-- The address of the first configuration shows where the second one has none. -/
theorem address_same_iff (m : Machine) {old new : GlobalConfig} (haddr : old.addr = new.addr) :
    addressOf m new (addressOf m old []) = addressOf m new [] ↔
      new.host ≠ [] ∨ (∃ a port, new.addr.splitOn ':' = [a, port]) ∨ old.host = [] := by
  by_cases hnew : new.host = []
  · by_cases hown : ∃ a port, new.addr.splitOn ':' = [a, port]
    · have hsome : ownHost m new.addr ≠ none := fun h => (ownHost_eq_none_iff m new.addr).mp h hown
      obtain ⟨host, hhost⟩ := Option.ne_none_iff_exists'.mp hsome
      have hderived : ∀ before, addressOf m new before = host := by
        intro before
        rw [addressOf, if_pos hnew, hhost]
        rfl
      rw [hderived, hderived]
      exact ⟨fun _ => Or.inr (Or.inl hown), fun _ => rfl⟩
    · have hnone := (ownHost_eq_none_iff m new.addr).mpr hown
      have hleft : ∀ cfg : GlobalConfig, cfg.host = [] → cfg.addr = new.addr → ∀ before, addressOf m cfg before = before := by
        intro cfg hcfg heq before
        rw [addressOf, if_pos hcfg, heq, hnone]
        rfl
      rw [hleft new hnew rfl, hleft new hnew rfl]
      constructor
      · intro h
        refine Or.inr (Or.inr ?_)
        by_contra hold
        exact addressOf_ne_nil hold [] h
      · intro hcase
        rcases hcase with h | h | hold
        · exact absurd hnew h
        · exact absurd h hown
        · exact hleft old hold haddr []
  · have hgiven : ∀ before before', addressOf m new before = addressOf m new before' := by
      intro before before'
      rw [addressOf, addressOf, if_neg hnew, if_neg hnew]
    exact ⟨fun _ => Or.inl hnew, fun _ => hgiven _ _⟩

/-- A server started with `old` on which a reload of `new` is asked for, and one started with `new`. -/
theorem reload_is_restart_iff {m : Machine} {draw draw' : Int} {old new : GlobalConfig} {f : ConfigFile} {r : Request}
    {text : Str} (haddr : old.addr = new.addr) (hkey : r.formValue "key".toList ≠ [])
    (hadmin : r.formValue "key".toList = old.adminKey) (haction : r.formValue "action".toList = "reload".toList)
    (htext : f.text = some text) (hdecode : f.decode text = .ok new) :
    ((Loaded.initServer m draw old).reload m f r true).2.2.Same (Loaded.initServer m draw' new) ↔ Reloadable old new := by
  have hreload : ((Loaded.initServer m draw old).reload m f r true).2.2 =
      { Loaded.initServer m draw old with config := parseConfig new }.initComponent m := by
    have hadmin' : r.formValue "key".toList = (Loaded.initServer m draw old).config.adminKey := by
      rw [initServer_eq]
      exact hadmin
    have hget : ¬ "reload".toList = "get".toList := by decide
    have hset : ¬ "reload".toList = "set".toList := by decide
    unfold Loaded.reload
    dsimp only
    rw [if_neg (by decide), if_neg hkey, if_neg (not_not.mpr hadmin'), haction, if_neg hget, if_neg hset, if_pos rfl, htext]
    dsimp only
    rw [hdecode]
  rw [hreload, initComponent_eq, initServer_eq, initServer_eq]
  constructor
  · intro h
    have hconfig := (completed_same_iff m draw' new).mp h.config
    have hprefix := (staticPrefix_same_iff old new).mp h.staticPrefix
    exact ⟨hconfig.1, hconfig.2, hprefix.1, hprefix.2, (putScenes_same_iff old.scenes new.scenes).mp h.sceneMap,
      (address_same_iff m haddr).mp h.host⟩
  · intro h
    exact ⟨(completed_same_iff m draw' new).mpr ⟨h.queueSize, h.peerId⟩, (address_same_iff m haddr).mpr h.host,
      (putScenes_same_iff old.scenes new.scenes).mpr h.scenes,
      (staticPrefix_same_iff old new).mpr ⟨h.groupManage, h.group⟩⟩

/-! ## Fixed inputs -/

def firstConfig : GlobalConfig :=
  { addr := ":8080".toList, host := "http://10.0.0.1:8080".toList, peerId := "1".toList, group := "group1".toList
    supportGroupManage := true, adminKey := "key".toList }

def configFile (cfg : GlobalConfig) : ConfigFile where
  text := some "cfg".toList
  decode _ := .ok cfg
  encode _ := "cfg".toList

def reloadRequest : Request :=
  { requestURI := "/group1/reload".toList
    body := [("key".toList, "key".toList), ("action".toList, "reload".toList)] }

/-- The same file reloaded. -/
theorem a_reload_forgets_the_queue_size :
    ¬ ((Loaded.initServer {} 0 firstConfig).reload {} (configFile firstConfig) reloadRequest true).2.2.Same
      (Loaded.initServer {} 0 firstConfig) := by
  intro h
  have hsize := congrArg GlobalConfig.queueSize h.config
  revert hsize
  decide +kernel

theorem a_reload_keeps_a_given_queue_size :
    let cfg := { firstConfig with queueSize := 5000 }
    ((Loaded.initServer {} 0 cfg).reload {} (configFile cfg) reloadRequest true).2.2.Same (Loaded.initServer {} 0 cfg) := by
  intro cfg
  have htext : (configFile cfg).text = some "cfg".toList := rfl
  have hdecode : (configFile cfg).decode "cfg".toList = .ok cfg := rfl
  refine (reload_is_restart_iff rfl (by decide +kernel) (by decide +kernel) (by decide +kernel) htext hdecode).mpr
    ⟨?_, ?_, rfl, fun _ => rfl, fun _ h => h, Or.inl ?_⟩
  · exact show (5000 : Int) ≠ 0 by decide
  · exact List.cons_ne_nil _ _
  · exact List.cons_ne_nil _ _

end GoFastdfs
