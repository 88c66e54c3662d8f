/-
  GoFastdfs.Peers — who counts as a peer (`GetRealIp`, `IsPeer` of `fileserver.go`).

  A client is the text of `RemoteAddr` before its first colon, which of a bracketed IPv6
  address is a bracket and one group. With `0.0.0.0` among the administrators' addresses
  every address that is not public is a peer. Otherwise a peer is listed, or in a listed
  network, or this machine, or its text begins the address of a configured peer, after
  `http://`. A network that cannot be read ends the search with no.

  Proved: who is let in is entitled to it and no configured peer is kept out exactly if,
  with `0.0.0.0`, an IPv6 client is not public, and without it, a client that is not
  entitled begins no peer's address or comes to an unreadable network, and a configured peer
  does not come to one and begins some peer's address (`isPeer_right_iff`).
-/

import GoFastdfs.Go.Net
import GoFastdfs.Reload

namespace GoFastdfs

open Go (Str IP)

def getRealIp (remoteAddr : Str) : Str := Go.splitHead ':' remoteAddr

def isPublicIP (ip : IP) : Bool :=
  if ip.isLoopback || ip.isLinkLocalMulticast || ip.isLinkLocalUnicast then false else
  match ip.to4 with
  | some (a :: b :: _) =>
    if a = 10 then false
    else if a = 172 ∧ 16 ≤ b ∧ b ≤ 31 then false
    else if a = 192 ∧ b = 168 then false
    else true
  | some _ => true
  | none => false

/-- The loop over the networks among the administrators' addresses: the answer, if one of
    them gives it. -/
def adminLoop (ip : IP) : List Str → Option Bool
  | [] => none
  | v :: vs =>
    if v.contains '/' then
      match Go.parseCIDR v with
      | none => some false
      | some net => if net.contains ip then some true else adminLoop ip vs
    else adminLoop ip vs

def Loaded.isPeer (m : Machine) (s : Loaded) (remoteAddr : Str) : Bool :=
  let ip := getRealIp remoteAddr
  let addr := (Go.parseIP ip).getD []
  if s.config.adminIps.contains "0.0.0.0".toList then !isPublicIP addr
  else if s.config.adminIps.contains ip then true
  else
    match adminLoop addr s.config.adminIps with
    | some answer => answer
    | none =>
      ip == "127.0.0.1".toList || ip == m.ip || s.config.peers.any (Go.hasPrefix · ("http://".toList ++ ip))

/-! ## Clients -/

/-- The address of a connection; an IPv6 address may have a zone. -/
structure Client where
  addr : Str
  zone : Str := []
  port : Str
  ip : IP
  parsed : Go.parseIP addr = some ip

namespace Client

def isV6 (k : Client) : Bool := k.addr.contains ':'

def remoteAddr (k : Client) : Str :=
  if k.isV6 then '[' :: (k.addr ++ k.zone ++ ']' :: ':' :: k.port) else k.addr ++ ':' :: k.port

def text (k : Client) : Str := if k.isV6 then '[' :: Go.splitHead ':' k.addr else k.addr

def seen (k : Client) : IP := if k.isV6 then [] else k.ip

end Client

/-- What entitles an address to be a peer. -/
inductive Entitled (m : Machine) (s : Loaded) (ip : IP) : Prop
  | listed (v : Str) : v ∈ s.config.adminIps → Go.parseIP v = some ip → Entitled m s ip
  | network (v : Str) (net : Go.IPNet) : v ∈ s.config.adminIps → Go.parseCIDR v = some net → net.contains ip = true →
      Entitled m s ip
  | loopback : Go.parseIP "127.0.0.1".toList = some ip → Entitled m s ip
  | own : Go.parseIP m.ip = some ip → Entitled m s ip
  | peer (p : Str) : p ∈ s.config.peers → Go.parseIP (Go.urlHost p) = some ip → Entitled m s ip

/-- The client's address is the host of a configured peer that speaks `http`. -/
def HttpPeer (s : Loaded) (ip : IP) : Prop :=
  ∃ p ∈ s.config.peers, Go.hasPrefix p "http://".toList = true ∧ Go.parseIP (Go.urlHost p) = some ip

/-- An unreadable network is listed, and no network before it has the address. -/
def Barred (ip : IP) (l : List Str) : Prop :=
  ∃ a v b, l = a ++ v :: b ∧ '/' ∈ v ∧ Go.parseCIDR v = none ∧
    ∀ u ∈ a, '/' ∈ u → ∀ net, Go.parseCIDR u = some net → net.contains ip = false

def InNetwork (ip : IP) (l : List Str) : Prop := ∃ v ∈ l, '/' ∈ v ∧ ∃ net, Go.parseCIDR v = some net ∧ net.contains ip = true

def Begins (s : Loaded) (text : Str) : Prop :=
  ∃ p ∈ s.config.peers, Go.hasPrefix p ("http://".toList ++ text) = true

/-- What is asked of `IsPeer`, over a notion of the addresses that are not public. -/
structure PeerRight (nonPublic : IP → Prop) (m : Machine) (s : Loaded) (k : Client) : Prop where
  entitled : s.isPeer m k.remoteAddr = true →
    ("0.0.0.0".toList ∈ s.config.adminIps ∧ nonPublic k.ip) ∨ Entitled m s k.ip
  admitted : "0.0.0.0".toList ∉ s.config.adminIps → HttpPeer s k.ip → s.isPeer m k.remoteAddr = true

/-- When `IsPeer` gives what is asked. -/
structure PeerSound (nonPublic : IP → Prop) (m : Machine) (s : Loaded) (k : Client) : Prop where
  zeros : "0.0.0.0".toList ∈ s.config.adminIps → k.isV6 = true → nonPublic k.ip ∨ Entitled m s k.ip
  stranger : "0.0.0.0".toList ∉ s.config.adminIps → ¬ Entitled m s k.ip →
    Barred k.seen s.config.adminIps ∨ (k.text ≠ m.ip ∧ ¬ Begins s k.text)
  peer : "0.0.0.0".toList ∉ s.config.adminIps → HttpPeer s k.ip →
    k.text ∈ s.config.adminIps ∨ ¬ Barred k.seen s.config.adminIps ∧
      (InNetwork k.seen s.config.adminIps ∨ k.text = "127.0.0.1".toList ∨ k.text = m.ip ∨ Begins s k.text)

/-! ## What the code sees -/

theorem Client.colon_iff (k : Client) : k.isV6 = true ↔ ':' ∈ k.addr := by
  simp [isV6]

theorem getRealIp_remoteAddr (k : Client) : getRealIp k.remoteAddr = k.text := by
  unfold getRealIp Client.remoteAddr Client.text
  by_cases h : k.isV6 = true
  · have hcolon := k.colon_iff.mp h
    rw [if_pos h, if_pos h, Go.splitHead_cons (by decide), List.append_assoc, Go.splitHead_append_of_mem hcolon]
  · have hcolon : ':' ∉ k.addr := fun hm => h (k.colon_iff.mpr hm)
    rw [if_neg h, if_neg h, Go.splitHead_append hcolon]

theorem parseIP_text (k : Client) : (Go.parseIP k.text).getD [] = k.seen := by
  unfold Client.text Client.seen
  by_cases h : k.isV6 = true
  · rw [if_pos h, if_pos h, Go.parseIP_bracket (Go.notMem_splitHead ':' _)]
    rfl
  · rw [if_neg h, if_neg h, k.parsed]
    rfl

theorem Client.to4 {k : Client} (h : k.isV6 = false) : k.ip.to4.isSome = true := by
  have hcolon : ':' ∉ k.addr := fun hm => by
    rw [k.colon_iff.mpr hm] at h
    cases h
  exact Go.parseIP_to4 k.parsed hcolon

theorem barred_cons {ip : IP} {v : Str} {vs : List Str} :
    Barred ip (v :: vs) ↔ ('/' ∈ v ∧ Go.parseCIDR v = none) ∨
      (('/' ∈ v → ∀ net, Go.parseCIDR v = some net → net.contains ip = false) ∧ Barred ip vs) := by
  constructor
  · intro h
    obtain ⟨a, u, b, hl, hslash, hnone, hbefore⟩ := h
    cases a with
    | nil =>
      obtain ⟨rfl, rfl⟩ := List.cons.inj hl
      exact Or.inl ⟨hslash, hnone⟩
    | cons x a =>
      obtain ⟨rfl, rfl⟩ := List.cons.inj hl
      exact Or.inr ⟨hbefore _ List.mem_cons_self,
        ⟨a, u, b, rfl, hslash, hnone, fun w hw => hbefore w (List.mem_cons_of_mem _ hw)⟩⟩
  · intro h
    rcases h with ⟨hslash, hnone⟩ | ⟨hv, a, u, b, rfl, hslash, hnone, hbefore⟩
    · exact ⟨[], v, vs, rfl, hslash, hnone, fun w hw => absurd hw List.not_mem_nil⟩
    · refine ⟨v :: a, u, b, rfl, hslash, hnone, fun w hw => ?_⟩
      rcases List.mem_cons.mp hw with rfl | hw
      · exact hv
      · exact hbefore w hw

theorem inNetwork_cons {ip : IP} {v : Str} {vs : List Str} :
    InNetwork ip (v :: vs) ↔ ('/' ∈ v ∧ ∃ net, Go.parseCIDR v = some net ∧ net.contains ip = true) ∨ InNetwork ip vs := by
  simp [InNetwork]

/-- The loop ends with what the first network says that cannot be read or has the address. -/
theorem adminLoop_spec (ip : IP) : ∀ l : List Str,
    (adminLoop ip l = some false ↔ Barred ip l) ∧ (adminLoop ip l = some true ↔ ¬ Barred ip l ∧ InNetwork ip l)
  | [] => by
    have hbarred : ¬ Barred ip [] := by
      intro h
      obtain ⟨a, v, b, hl, _⟩ := h
      exact absurd hl (by simp)
    have hnetwork : ¬ InNetwork ip [] := by
      intro h
      obtain ⟨v, hv, _⟩ := h
      cases hv
    simp [adminLoop, hbarred, hnetwork]
  | v :: vs => by
    obtain ⟨hfalse, htrue⟩ := adminLoop_spec ip vs
    rw [barred_cons, inNetwork_cons, adminLoop]
    by_cases hslash : '/' ∈ v
    · rw [if_pos (by simpa using hslash)]
      cases hnet : Go.parseCIDR v with
      | none => simp [hslash]
      | some net =>
        by_cases hin : net.contains ip = true
        · simp [hslash, hin]
        · simp [hslash, hin, hfalse, htrue]
    · rw [if_neg (by simpa using hslash)]
      simp [hslash, hfalse, htrue]

theorem isPeer_iff {m : Machine} {s : Loaded} {k : Client} (h0 : "0.0.0.0".toList ∉ s.config.adminIps) :
    s.isPeer m k.remoteAddr = true ↔ k.text ∈ s.config.adminIps ∨ ¬ Barred k.seen s.config.adminIps ∧
      (InNetwork k.seen s.config.adminIps ∨ k.text = "127.0.0.1".toList ∨ k.text = m.ip ∨ Begins s k.text) := by
  obtain ⟨hfalse, htrue⟩ := adminLoop_spec k.seen s.config.adminIps
  unfold Loaded.isPeer
  rw [getRealIp_remoteAddr]
  dsimp only
  rw [parseIP_text, if_neg (by simpa using h0)]
  by_cases hlisted : k.text ∈ s.config.adminIps
  · simp [hlisted]
  rw [if_neg (by simpa using hlisted), or_iff_right hlisted]
  cases hloop : adminLoop k.seen s.config.adminIps with
  | some answer =>
    cases answer with
    | false =>
      have := hfalse.mp hloop
      simp [this]
    | true =>
      have := htrue.mp hloop
      simp [this.1, this.2]
  | none =>
    have hbarred : ¬ Barred k.seen s.config.adminIps := by
      intro h
      rw [hfalse.mpr h] at hloop
      cases hloop
    have hnetwork : ¬ InNetwork k.seen s.config.adminIps := by
      intro h
      rw [htrue.mpr ⟨hbarred, h⟩] at hloop
      cases hloop
    have hbegins : (s.config.peers.any fun p => Go.hasPrefix p ("http://".toList ++ k.text)) = true ↔ Begins s k.text := by
      simp [Begins]
    dsimp only
    rw [Bool.or_eq_true, Bool.or_eq_true, hbegins, beq_iff_eq, beq_iff_eq]
    simp [hbarred, hnetwork, or_assoc]

theorem Client.text_v6 {k : Client} (h : k.isV6 = true) : ∃ rest, k.text = '[' :: rest := by
  unfold text
  rw [if_pos h]
  exact ⟨_, rfl⟩

theorem text_notMem_adminIps {s : Loaded} {k : Client} (h : k.isV6 = true)
    (hplain : ∀ v ∈ s.config.adminIps, Go.parseIP v ≠ none ∨ '/' ∈ v) : k.text ∉ s.config.adminIps := by
  intro hmem
  have htext : k.text = '[' :: Go.splitHead ':' k.addr := by
    unfold Client.text
    rw [if_pos h]
  rw [htext] at hmem
  rcases hplain _ hmem with hp | hp
  · exact hp (Go.parseIP_bracket (Go.notMem_splitHead ':' _))
  · rcases List.mem_cons.mp hp with h' | h'
    · cases h'
    · exact Go.slash_notMem_parseIP k.parsed h'

theorem entitled_of_inNetwork {m : Machine} {s : Loaded} {k : Client} (h : InNetwork k.seen s.config.adminIps) :
    Entitled m s k.ip := by
  obtain ⟨v, hv, _, net, hnet, hin⟩ := h
  unfold Client.seen at hin
  by_cases h6 : k.isV6 = true
  · rw [if_pos h6, Go.contains_nil hnet] at hin
    cases hin
  · rw [if_neg h6] at hin
    exact .network v net hv hnet hin

theorem parseIP_of_text {k : Client} (h : k.isV6 = false) : Go.parseIP k.text = some k.ip := by
  unfold Client.text
  rw [if_neg (by simp [h])]
  exact k.parsed

theorem entitled_of_text {m : Machine} {s : Loaded} {k : Client}
    (hplain : ∀ v ∈ s.config.adminIps, Go.parseIP v ≠ none ∨ '/' ∈ v)
    (h : k.text ∈ s.config.adminIps ∨ k.text = "127.0.0.1".toList) : Entitled m s k.ip := by
  cases h6 : k.isV6 with
  | true =>
    rcases h with h | h
    · exact absurd h (text_notMem_adminIps h6 hplain)
    · obtain ⟨rest, hrest⟩ := k.text_v6 h6
      rw [hrest] at h
      exact absurd (List.cons.inj h).1 (by decide)
  | false =>
    have hparse := parseIP_of_text h6
    rcases h with h | h
    · exact .listed _ h hparse
    · exact .loopback (h ▸ hparse)

theorem isPeer_zeros {m : Machine} {s : Loaded} {k : Client} (h0 : "0.0.0.0".toList ∈ s.config.adminIps) :
    s.isPeer m k.remoteAddr = !isPublicIP k.seen := by
  unfold Loaded.isPeer
  rw [getRealIp_remoteAddr]
  dsimp only
  rw [parseIP_text, if_pos (by simpa using h0)]

/-- Who is let in and who is kept out, over every client, list of administrators' addresses and
    list of peers; `nonPublic` agrees with the code on IPv4. -/
theorem isPeer_right_iff {nonPublic : IP → Prop} {m : Machine} {s : Loaded} {k : Client}
    (hpublic : ∀ ip : IP, ip.to4.isSome = true → (nonPublic ip ↔ isPublicIP ip = false))
    (hplain : ∀ v ∈ s.config.adminIps, Go.parseIP v ≠ none ∨ '/' ∈ v) :
    PeerRight nonPublic m s k ↔ PeerSound nonPublic m s k := by
  by_cases h0 : "0.0.0.0".toList ∈ s.config.adminIps
  · constructor
    · intro h
      refine ⟨fun _ h6 => ?_, fun h' => absurd h0 h', fun h' => absurd h0 h'⟩
      have hpeer : s.isPeer m k.remoteAddr = true := by
        rw [isPeer_zeros h0, Client.seen, if_pos h6]
        rfl
      exact (h.entitled hpeer).imp_left And.right
    · intro h
      refine ⟨fun hpeer => ?_, fun h' => absurd h0 h'⟩
      cases h6 : k.isV6 with
      | true => exact (h.zeros h0 h6).imp_left fun hn => ⟨h0, hn⟩
      | false =>
        rw [isPeer_zeros h0, Client.seen, if_neg (by simp [h6])] at hpeer
        exact Or.inl ⟨h0, (hpublic k.ip (Client.to4 h6)).mpr (by simpa using hpeer)⟩
  · constructor
    · intro h
      refine ⟨fun h' => absurd h' h0, fun _ hent => ?_, fun _ hpeer => (isPeer_iff h0).mp (h.admitted h0 hpeer)⟩
      have hout : ¬ s.isPeer m k.remoteAddr = true := fun hp => (h.entitled hp).elim (fun h' => h0 h'.1) hent
      rw [isPeer_iff h0] at hout
      by_contra hnot
      obtain ⟨hbarred, hnext⟩ := not_or.mp hnot
      refine hout (Or.inr ⟨hbarred, Or.inr (Or.inr ?_)⟩)
      by_contra hnone
      obtain ⟨hown, hbegins⟩ := not_or.mp hnone
      exact hnext ⟨hown, hbegins⟩
    · intro h
      refine ⟨fun hpeer => Or.inr ?_, fun _ hp => (isPeer_iff h0).mpr (h.peer h0 hp)⟩
      by_contra hent
      rcases (isPeer_iff h0).mp hpeer with hlisted | ⟨hbarred, hnetwork | hloop | hown⟩
      · exact hent (entitled_of_text hplain (Or.inl hlisted))
      · exact hent (entitled_of_inNetwork hnetwork)
      · exact hent (entitled_of_text hplain (Or.inr hloop))
      · rcases h.stranger h0 hent with hb | ⟨hne, hbegins⟩
        · exact hbarred hb
        · exact hown.elim hne hbegins

/-! ## Fixed inputs -/

def clientAt (a b d e : UInt8) (addr : Str) (h : Go.parseIP addr = some (Go.v4InV6Prefix ++ [a, b, d, e])) : Client where
  addr := addr
  port := "5000".toList
  ip := Go.v4InV6Prefix ++ [a, b, d, e]
  parsed := h

def nearClient : Client := clientAt 10 1 1 1 "10.1.1.1".toList (by decide +kernel)

def peerClient : Client := clientAt 10 1 1 10 "10.1.1.10".toList (by decide +kernel)

def onePeer : Loaded where
  config := { peers := ["http://10.1.1.10:8080".toList], adminIps := ["127.0.0.1".toList] }

def thisMachine : Machine := { envIp := "10.1.1.7".toList }

/-- The client's address is cut off the peer's. -/
theorem a_shorter_address_is_let_in : ¬ PeerRight (isPublicIP · = false) thisMachine onePeer nearClient := by
  intro h
  have hpeer : onePeer.isPeer thisMachine nearClient.remoteAddr = true := by decide +kernel
  rcases h.entitled hpeer with ⟨hzero, _⟩ | hent
  · exact absurd hzero (by decide)
  cases hent with
  | listed v hv hparse =>
    obtain rfl := List.mem_singleton.mp hv
    exact absurd hparse (by decide +kernel)
  | network v net hv hnet =>
    obtain rfl := List.mem_singleton.mp hv
    have hnone : (Go.parseCIDR "127.0.0.1".toList).isNone = true := by decide +kernel
    rw [hnet] at hnone
    cases hnone
  | loopback hparse => exact absurd hparse (by decide +kernel)
  | own hparse => exact absurd hparse (by decide +kernel)
  | peer p hp hparse =>
    obtain rfl := List.mem_singleton.mp hp
    exact absurd hparse (by decide +kernel)

theorem the_peer_is_let_in : PeerRight (isPublicIP · = false) thisMachine onePeer peerClient := by
  have hplain : ∀ v ∈ onePeer.config.adminIps, Go.parseIP v ≠ none ∨ '/' ∈ v := by
    intro v hv
    obtain rfl := List.mem_singleton.mp hv
    exact Or.inl (by decide +kernel)
  have hnotBarred : ¬ Barred peerClient.seen onePeer.config.adminIps := by
    intro h
    obtain ⟨a, v, b, hl, hslash, _⟩ := h
    have hv : v ∈ onePeer.config.adminIps := by
      rw [hl]
      exact List.mem_append_right _ List.mem_cons_self
    obtain rfl := List.mem_singleton.mp hv
    exact absurd hslash (by decide)
  have hbegins : Begins onePeer peerClient.text := ⟨_, List.mem_cons_self, by decide +kernel⟩
  refine (isPeer_right_iff (fun _ _ => Iff.rfl) hplain).mpr ⟨fun h0 => absurd h0 (by decide), fun _ hent => ?_, fun _ _ => ?_⟩
  · exact absurd (.peer "http://10.1.1.10:8080".toList List.mem_cons_self (by decide +kernel)) hent
  · exact Or.inr ⟨hnotBarred, Or.inr (Or.inr (Or.inr hbegins))⟩

end GoFastdfs
