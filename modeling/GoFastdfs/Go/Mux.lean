/-
  GoFastdfs.Go.Mux — `http.ServeMux` with patterns that name no host.

  A pattern is registered once; registering it again panics. A request goes to the handler
  whose pattern is its path, else to the longest pattern that ends in a slash and begins the
  path. A path that is not clean is redirected to the clean one, and a path for which only
  the pattern with a slash behind it is registered is redirected there. The path is that of
  the address as a URL; where that is an error the request is a bad one.

  A mux carries the fact that its patterns differ, so a registered pattern has one handler
  (`matchPath_iff`), and what is registered is what was asked for (`register_eq_some`).
-/

import GoFastdfs.Go.Path
import GoFastdfs.Go.Url
import Mathlib.Data.List.MinMax
import Mathlib.Data.List.Nodup

namespace GoFastdfs.Go

structure Mux (η : Type) where
  routes : List (Str × η)
  nodup : (routes.map (·.1)).Nodup

inductive Outcome (η : Type) where
  | badRequest
  | redirect (path : Str)
  | serve (h : η)
  | notFound

def cleanPath (p : Str) : Str :=
  if p = [] then ['/'] else
  let p := if p.head? = some '/' then p else '/' :: p
  let np := pathClean p
  if p.getLast? = some '/' ∧ np ≠ ['/'] then np ++ ['/'] else np

theorem cleanPath_rooted (p : Str) : ['/'] <+: cleanPath p := by
  unfold cleanPath
  by_cases hnil : p = []
  · rw [if_pos hnil]
  rw [if_neg hnil]
  obtain ⟨t, ht⟩ : ∃ t, (if p.head? = some '/' then p else '/' :: p) = '/' :: t := by
    split_ifs with hhead
    · exact ⟨p.tail, (List.eq_cons_of_mem_head? hhead)⟩
    · exact ⟨p, rfl⟩
  have hclean : ['/'] <+: pathClean ('/' :: t) := by
    have hroot : rooted ('/' :: t) = true := rfl
    rw [pathClean_eq, if_pos hroot]
    exact List.cons_prefix_cons.mpr ⟨rfl, List.nil_prefix⟩
  dsimp only
  rw [ht]
  split_ifs
  · exact hclean.trans (List.prefix_append _ _)
  · exact hclean

theorem cleanPath_ne_of_two (t : Str) : cleanPath ('/' :: '/' :: t) ≠ '/' :: '/' :: t := by
  intro h
  have hroot : rooted ('/' :: '/' :: t) = true := rfl
  obtain ⟨J, hJ, hhead⟩ : ∃ J, pathClean ('/' :: '/' :: t) = '/' :: J ∧ J.head? ≠ some '/' := by
    refine ⟨['/'].intercalate (kept ('/' :: '/' :: t)).reverse, by rw [pathClean_eq, if_pos hroot], ?_⟩
    rcases hk : (kept ('/' :: '/' :: t)).reverse with _ | ⟨a, ks⟩
    · simp
    · have ha : Name a := mem_kept (List.mem_reverse.mp (hk ▸ List.mem_cons_self))
      obtain ⟨x, a', rfl⟩ := List.exists_cons_of_ne_nil ha.ne_nil
      have hx : x ≠ '/' := fun e => ha.slash (e ▸ List.mem_cons_self)
      cases ks <;> simpa [List.intercalate, List.intersperse] using hx
  have hslash : ('/' :: '/' :: t).head? = some '/' := rfl
  unfold cleanPath at h
  rw [if_neg (List.cons_ne_nil _ _), if_pos hslash] at h
  dsimp only at h
  rw [hJ] at h
  split_ifs at h with hlast
  · have hJne : J ≠ [] := fun e => hlast.2 (by rw [e])
    obtain ⟨x, J', rfl⟩ := List.exists_cons_of_ne_nil hJne
    rw [List.cons_append, List.cons_append, List.cons_inj_right, List.cons.injEq] at h
    exact hhead (by rw [h.1]; rfl)
  · have : J = '/' :: t := (List.cons_inj_right _).mp h
    exact hhead (by rw [this]; rfl)

namespace Mux

variable {η : Type}

def empty : Mux η := ⟨[], List.nodup_nil⟩

theorem nodup_concat {m : Mux η} {pattern : Str} (hnew : ∀ r ∈ m.routes, r.1 ≠ pattern) (h : η) :
    ((m.routes ++ [(pattern, h)]).map (·.1)).Nodup := by
  rw [List.map_append]
  refine List.nodup_append.mpr ⟨m.nodup, List.nodup_singleton _, fun a ha b hb e => ?_⟩
  obtain ⟨r, hr, rfl⟩ := List.mem_map.mp ha
  exact hnew r hr (e.trans (List.mem_singleton.mp hb))

/-- `Handle`; no mux where it panics. -/
def handle (m : Mux η) (pattern : Str) (h : η) : Option (Mux η) :=
  if hnew : ∀ r ∈ m.routes, r.1 ≠ pattern then
    if pattern = [] then none else some ⟨m.routes ++ [(pattern, h)], nodup_concat hnew h⟩
  else none

def register (m : Mux η) (rs : List (Str × η)) : Option (Mux η) := rs.foldlM (fun m r => m.handle r.1 r.2) m

/-- A pattern for what is below it. -/
def Subtree (pattern path : Str) : Prop := pattern.getLast? = some '/' ∧ pattern <+: path

instance (pattern path : Str) : Decidable (Subtree pattern path) := inferInstanceAs (Decidable (_ ∧ _))

def find (m : Mux η) (pattern : Str) : Option (Str × η) := m.routes.find? (·.1 == pattern)

def longest (m : Mux η) (path : Str) : Option (Str × η) :=
  (m.routes.filter fun r => Subtree r.1 path).argmax (·.1.length)

def matchPath (m : Mux η) (path : Str) : Option η := ((m.find path).or (m.longest path)).map (·.2)

def redirects (m : Mux η) (path : Str) : Bool :=
  (m.find path).isNone && (m.find (path ++ ['/'])).isSome && path.getLast? != some '/'

def dispatch (m : Mux η) (path : Str) : Outcome η :=
  let p := cleanPath path
  if m.redirects p then .redirect (p ++ ['/'])
  else if p ≠ path then .redirect p
  else
    match m.matchPath p with
    | some h => .serve h
    | none => .notFound

def request (m : Mux η) (address : Str) : Outcome η :=
  match urlPath address with
  | none => .badRequest
  | some path => m.dispatch path

/-! ## Registered patterns -/

theorem handle_eq_some {m m' : Mux η} {pattern : Str} {h : η} :
    m.handle pattern h = some m' ↔ pattern ∉ m.routes.map (·.1) ∧ pattern ≠ [] ∧ m'.routes = m.routes ++ [(pattern, h)] := by
  have hext : ∀ (rs : List (Str × η)) (hrs : (rs.map (·.1)).Nodup), (⟨rs, hrs⟩ : Mux η) = m' ↔ m'.routes = rs := by
    intro rs hrs
    cases m'
    simp [eq_comm]
  have hall : (∀ r ∈ m.routes, r.1 ≠ pattern) ↔ pattern ∉ m.routes.map (·.1) := by
    rw [List.mem_map, not_exists]
    exact forall_congr' fun r => by rw [not_and]
  unfold handle
  by_cases hnew : pattern ∈ m.routes.map (·.1)
  · rw [dif_neg (mt hall.mp (not_not.mpr hnew))]
    exact ⟨fun h => (by cases h), fun h => absurd hnew h.1⟩
  · rw [dif_pos (hall.mpr hnew)]
    by_cases hnil : pattern = []
    · simp [hnil]
    · rw [if_neg hnil, Option.some_inj, hext]
      exact ⟨fun h => ⟨hnew, hnil, h⟩, fun h => h.2.2⟩

/-- A list of registrations goes through exactly if its patterns are new, differ and are not
    empty; it then holds these routes. -/
theorem register_eq_some : ∀ {rs : List (Str × η)} {m m' : Mux η}, m.register rs = some m' ↔
    (m.routes.map (·.1) ++ rs.map (·.1)).Nodup ∧ [] ∉ rs.map (·.1) ∧ m'.routes = m.routes ++ rs
  | [], m, m' => by
    have : m = m' ↔ m'.routes = m.routes := by
      cases m
      cases m'
      simp [eq_comm]
    simpa [register, m.nodup] using this
  | r :: rs, m, m' => by
    have hstep : m.register (r :: rs) = (m.handle r.1 r.2).bind (·.register rs) := by
      simp [register, List.foldlM_cons]
    rw [hstep, Option.bind_eq_some_iff]
    constructor
    · intro h
      obtain ⟨m₁, hm₁, hrs⟩ := h
      obtain ⟨hnew, hnil, hroutes⟩ := handle_eq_some.mp hm₁
      obtain ⟨hnodup, hempty, hm'⟩ := register_eq_some.mp hrs
      rw [hroutes] at hnodup hm'
      refine ⟨by simpa using hnodup, ?_, by simpa using hm'⟩
      rw [List.map_cons, List.mem_cons, not_or]
      exact ⟨hnil.symm, hempty⟩
    · intro h
      obtain ⟨hnodup, hempty, hm'⟩ := h
      rw [List.map_cons, List.mem_cons, not_or] at hempty
      have hnew : r.1 ∉ m.routes.map (·.1) := by
        intro hr
        exact (List.nodup_append.mp hnodup).2.2 _ hr _ List.mem_cons_self rfl
      have hm₁ : (m.routes ++ [(r.1, r.2)]).map (·.1) ++ rs.map (·.1) = m.routes.map (·.1) ++ (r :: rs).map (·.1) := by simp
      have hnodup₁ : ((m.routes ++ [(r.1, r.2)]).map (·.1)).Nodup := (List.nodup_append.mp (hm₁ ▸ hnodup)).1
      refine ⟨⟨_, hnodup₁⟩, handle_eq_some.mpr ⟨hnew, Ne.symm hempty.1, rfl⟩, register_eq_some.mpr ⟨?_, hempty.2, ?_⟩⟩
      · rw [hm₁]
        exact hnodup
      · rw [hm']
        simp

theorem routes_inj {m : Mux η} {r r' : Str × η} (hr : r ∈ m.routes) (hr' : r' ∈ m.routes) (h : r.1 = r'.1) : r = r' :=
  List.inj_on_of_nodup_map m.nodup hr hr' h

theorem find_eq_some {m : Mux η} {pattern : Str} {r : Str × η} : m.find pattern = some r ↔ r ∈ m.routes ∧ r.1 = pattern := by
  constructor
  · intro h
    exact ⟨List.mem_of_find?_eq_some h, by simpa using List.find?_some h⟩
  · intro hx
    obtain ⟨hr, rfl⟩ := hx
    cases hf : m.find r.1 with
    | none => exact absurd (List.find?_eq_none.mp hf r hr) (by simp)
    | some r' =>
      have hr' : r' ∈ m.routes := List.mem_of_find?_eq_some hf
      have heq : r'.1 = r.1 := by simpa using List.find?_some hf
      rw [routes_inj hr' hr heq]

theorem find_isSome {m : Mux η} {pattern : Str} : (m.find pattern).isSome = true ↔ ∃ h, (pattern, h) ∈ m.routes := by
  rw [Option.isSome_iff_exists]
  constructor
  · intro hx
    obtain ⟨r, hr⟩ := hx
    obtain ⟨hmem, rfl⟩ := find_eq_some.mp hr
    exact ⟨r.2, hmem⟩
  · intro hx
    obtain ⟨h, hmem⟩ := hx
    exact ⟨_, find_eq_some.mpr ⟨hmem, rfl⟩⟩

theorem longest_eq_some {m : Mux η} {path : Str} {r : Str × η} : m.longest path = some r ↔
    r ∈ m.routes ∧ Subtree r.1 path ∧ ∀ r' ∈ m.routes, Subtree r'.1 path → r'.1.length ≤ r.1.length := by
  have hmem : ∀ {x : Str × η}, x ∈ (m.routes.filter fun r => Subtree r.1 path) ↔ x ∈ m.routes ∧ Subtree x.1 path := by
    intro x
    simp
  constructor
  · intro h
    obtain ⟨hr, hsub⟩ := hmem.mp (List.argmax_mem h)
    exact ⟨hr, hsub, fun r' hr' hsub' => List.le_of_mem_argmax (f := fun r : Str × η => r.1.length) (hmem.mpr ⟨hr', hsub'⟩) h⟩
  · intro hx
    obtain ⟨hr, hsub, hmax⟩ := hx
    cases hl : m.longest path with
    | none =>
      have hnil := List.argmax_eq_none.mp hl
      exact absurd (hmem.mpr ⟨hr, hsub⟩) (by simp [hnil])
    | some r' =>
      obtain ⟨hr', hsub'⟩ := hmem.mp (List.argmax_mem hl)
      have hle : r.1.length ≤ r'.1.length :=
        List.le_of_mem_argmax (f := fun r : Str × η => r.1.length) (hmem.mpr ⟨hr, hsub⟩) hl
      have heq : r'.1 = r.1 := by
        have hlen : r'.1.length = r.1.length := Nat.le_antisymm (hmax r' hr' hsub') hle
        exact (List.prefix_of_prefix_length_le hsub'.2 hsub.2 hlen.le).eq_of_length hlen
      rw [routes_inj hr' hr heq]

theorem longest_of_mem {m : Mux η} {path : Str} {r : Str × η} (hr : r ∈ m.routes) (hsub : Subtree r.1 path) :
    ∃ r', m.longest path = some r' := by
  cases hl : m.longest path with
  | some r' => exact ⟨r', rfl⟩
  | none =>
    have hnil := List.argmax_eq_none.mp hl
    have hmem : r ∈ m.routes.filter fun r => Subtree r.1 path := List.mem_filter.mpr ⟨hr, by simpa using hsub⟩
    rw [hnil] at hmem
    cases hmem

/-- A path is served by the route of its own name, or by the longest subtree it is in. -/
theorem matchPath_iff {m : Mux η} {path : Str} {h : η} : m.matchPath path = some h ↔
    (path, h) ∈ m.routes ∨ (∀ h', (path, h') ∉ m.routes) ∧ ∃ pattern, (pattern, h) ∈ m.routes ∧ Subtree pattern path ∧
      ∀ r' ∈ m.routes, Subtree r'.1 path → r'.1.length ≤ pattern.length := by
  unfold matchPath
  rw [Option.map_eq_some_iff]
  cases hf : m.find path with
  | some r =>
    obtain ⟨hr, rfl⟩ := find_eq_some.mp hf
    constructor
    · intro hp
      obtain ⟨r', hr', rfl⟩ := hp
      obtain rfl := Option.some.inj hr'
      exact Or.inl hr
    · intro hcase
      rcases hcase with hmem | ⟨hno, -⟩
      · refine ⟨r, rfl, ?_⟩
        exact congrArg Prod.snd (routes_inj hr hmem rfl)
      · exact absurd hr (hno r.2)
  | none =>
    have hno : ∀ h', (path, h') ∉ m.routes := by
      intro h' hmem
      have := find_eq_some.mpr ⟨hmem, rfl⟩
      rw [hf] at this
      cases this
    constructor
    · intro hp
      obtain ⟨r, hr, rfl⟩ := hp
      obtain ⟨hmem, hsub, hmax⟩ := longest_eq_some.mp hr
      exact Or.inr ⟨hno, r.1, hmem, hsub, hmax⟩
    · intro hcase
      rcases hcase with hmem | ⟨-, pattern, hmem, hsub, hmax⟩
      · exact absurd hmem (hno h)
      · exact ⟨(pattern, h), longest_eq_some.mpr ⟨hmem, hsub, hmax⟩, rfl⟩

/-- What is served as it is asked for: a clean path that is not sent on to its subtree. -/
theorem dispatch_serve_iff {m : Mux η} {path : Str} {h : η} : m.dispatch path = .serve h ↔
    cleanPath path = path ∧ m.redirects path = false ∧ m.matchPath path = some h := by
  unfold dispatch
  dsimp only
  by_cases hclean : cleanPath path = path
  · rw [hclean]
    cases hred : m.redirects path with
    | true => simp
    | false => cases m.matchPath path <;> simp
  · simp only [hclean, false_and, iff_false, ne_eq, not_false_eq_true, if_true]
    split_ifs <;> simp

theorem request_serve_iff {m : Mux η} {address : Str} {h : η} : m.request address = .serve h ↔
    ∃ path, urlPath address = some path ∧ m.dispatch path = .serve h := by
  unfold request
  cases urlPath address <;> simp

theorem redirects_of_mem {m : Mux η} {path : Str} {h : η} (hmem : (path, h) ∈ m.routes) : m.redirects path = false := by
  have : m.find path = some (path, h) := find_eq_some.mpr ⟨hmem, rfl⟩
  simp [redirects, this]

end Mux

end GoFastdfs.Go
