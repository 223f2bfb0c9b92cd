import FastServer.Radix

namespace FastServer.Fast

open Radix
open RouteSpec (Routes refFind)

variable {H : Type}

/-- A `paramRoute`; `pre` is its `prefix` field. -/
structure ParamRoute (H : Type) where
  method : Bytes
  pre : Bytes
  suffix : Bytes
  paramName : Bytes
  handler : H
  prefixLen : Nat
  hasWildcard : Bool

structure FastRouter (H : Type) where
  staticMap : GoMap UInt64 H
  hasHealthCheck : Bool
  healthHandler : Option H
  hasPing : Bool
  pingHandler : Option H
  paramRoutes : List (ParamRoute H)
  radix : RadixRouter H

def newFastRouter : FastRouter H := ⟨[], false, none, false, none, [], newRadixRouter⟩

def fnvPrime : UInt64 := 1099511628211
def fnvOffset : UInt64 := 14695981039346656037

/-- FNV-1a over `bytes`, continuing from `hash`. -/
def fnv (hash : UInt64) (bytes : Bytes) : UInt64 :=
  bytes.foldl (fun h b => (h ^^^ b.toUInt64) * fnvPrime) hash

def hashRoute (method path : Bytes) : UInt64 := fnv (fnv fnvOffset method) path

/-- The manual byte loop of `stringHasPrefix` computes `strings.HasPrefix`. -/
def stringHasPrefix (s pre : Bytes) : Bool := hasPrefix s pre

def stringHasSuffix (s suffix : Bytes) : Bool :=
  suffix.length ≤ s.length && stringHasPrefix (s.drop (s.length - suffix.length)) suffix

/-- `strings.Index(s, sub)`, with `none` for `-1`. -/
def indexOfSub (s sub : Bytes) : Option Nat :=
  (List.range (s.length + 1)).find? (fun i => stringHasPrefix (s.drop i) sub)

/-- `FastRouter.Add`; the radix fallback can panic like `RadixRouter.Add`. -/
def FastRouter.add (r : FastRouter H) (method path : Bytes) (handler : H) :
    Except AddError (FastRouter H) :=
  if method = lit "GET" ∧ path = lit "/health" then
    .ok { r with hasHealthCheck := true, healthHandler := some handler }
  else if method = lit "GET" ∧ path = lit "/ping" then
    .ok { r with hasPing := true, pingHandler := some handler }
  else if colon ∉ path ∧ star ∉ path then
    .ok { r with staticMap := r.staticMap.set (hashRoute method path) handler }
  else if path.count colon = 1 ∧ star ∉ path then
    let idx := path.indexOf colon
    let (paramName, suffix) :=
      match (path.drop idx).findIdx? (· = slash) with
      | none => (path.drop (idx + 1), [])
      | some s => ((path.drop (idx + 1)).take (s - 1), path.drop (idx + s))
    .ok { r with paramRoutes := r.paramRoutes ++
      [⟨method, path.take idx, suffix, paramName, handler, idx, false⟩] }
  else if star ∈ path then
    let idx := path.indexOf star
    .ok { r with paramRoutes := r.paramRoutes ++
      [⟨method, path.take idx, [], path.drop (idx + 1), handler, idx, true⟩] }
  else (r.radix.add method path handler).map ({ r with radix := · })

/-- `findParamRouteFast`: the first param route, in insertion order, that accepts the path. -/
def findParamRouteFast (method path : Bytes) : List (ParamRoute H) → Option H × Params
  | [] => (none, [])
  | route :: routes =>
      if route.method ≠ method ∨ path.length < route.prefixLen ∨
          !stringHasPrefix path route.pre then
        findParamRouteFast method path routes
      else if route.hasWildcard then
        (some route.handler, [(route.paramName, path.drop route.prefixLen)])
      else if route.suffix = [] then
        (some route.handler, [(route.paramName, path.drop route.prefixLen)])
      else
        match indexOfSub (path.drop route.prefixLen) route.suffix with
        | none => findParamRouteFast method path routes
        | some e =>
            if !stringHasSuffix path route.suffix then findParamRouteFast method path routes
            else (some route.handler, [(route.paramName, (path.drop route.prefixLen).take e)])

/-- `FastRouter.Find`. -/
def FastRouter.find (r : FastRouter H) (method path : Bytes) : Lookup H :=
  if r.hasHealthCheck ∧ path.length = 7 ∧ path = lit "/health" ∧ method = lit "GET" then
    .ok (r.healthHandler, [])
  else if r.hasPing ∧ path.length = 5 ∧ path = lit "/ping" ∧ method = lit "GET" then
    .ok (r.pingHandler, [])
  else
    match r.staticMap.get (hashRoute method path) with
    | some h => .ok (some h, [])
    | none =>
        match findParamRouteFast method path r.paramRoutes with
        | (some h, params) => .ok (some h, params)
        | (none, _) => r.radix.find method path

def FastRouter.addAll (r : FastRouter H) : Routes H → Except AddError (FastRouter H)
  | [] => .ok r
  | (m, p, h) :: routes => do
      let r ← r.add m p h
      r.addAll routes

/-- The single-parameter matcher takes everything after the prefix as the parameter, `/`
included, so a path one segment longer than the route still matches it. -/
theorem find_binds_param_across_slash :
    refFind [(lit "GET", lit "/api/users/:id", 1)] (lit "GET") (lit "/api/users/1/2") = (none, []) ∧
      (newFastRouter.addAll [(lit "GET", lit "/api/users/:id", (1 : Nat))]).map
        (·.find (lit "GET") (lit "/api/users/1/2")) = .ok (.ok (some 1, [(lit "id", lit "1/2")])) := by
  decide

open RouteSpec (NoWildcard lastHandler lastHandler_append_single refFind_of_noWildcard)

/-- `GET /health` and `GET /ping`, which `Add` keeps in slots of their own. -/
def dedicated (method path : Bytes) : Prop :=
  (method = lit "GET" ∧ path = lit "/health") ∨ (method = lit "GET" ∧ path = lit "/ping")

instance (method path : Bytes) : Decidable (dedicated method path) := inferInstanceAs (Decidable (_ ∨ _))

/-- What a router built from a static table holds. -/
structure StaticOk (routes : Routes H) (r : FastRouter H) : Prop where
  paramRoutes : r.paramRoutes = []
  radix : r.radix = newRadixRouter
  health : r.healthHandler = lastHandler routes (lit "GET") (lit "/health")
  hasHealth : r.hasHealthCheck = r.healthHandler.isSome
  ping : r.pingHandler = lastHandler routes (lit "GET") (lit "/ping")
  hasPing : r.hasPing = r.pingHandler.isSome
  staticMap : ∀ k, r.staticMap.get k =
    (routes.filter fun x => ¬dedicated x.1 x.2.1 ∧ hashRoute x.1 x.2.1 = k).getLast?.map (·.2.2)

theorem getLast?_filter_append_single {α : Type} (l : List α) (x : α) (p : α → Bool) :
    ((l ++ [x]).filter p).getLast? = if p x then some x else (l.filter p).getLast? := by
  rw [List.filter_append]
  by_cases hx : p x <;> simp [hx]

theorem addAll_append (r : FastRouter H) (routes : Routes H) (route : Bytes × Bytes × H) :
    r.addAll (routes ++ [route]) = r.addAll routes >>= fun r => r.add route.1 route.2.1 route.2.2 := by
  induction routes generalizing r with
  | nil =>
      show (do let r ← r.add route.1 route.2.1 route.2.2; .ok r) = r.add route.1 route.2.1 route.2.2
      cases r.add route.1 route.2.1 route.2.2 <;> rfl
  | cons x routes ih =>
      obtain ⟨m, p, h⟩ := x
      simp only [List.cons_append, FastRouter.addAll]
      cases r.add m p h with
      | error e => rfl
      | ok r' => exact ih r'

theorem StaticOk.add {routes : Routes H} {r : FastRouter H} (hr : StaticOk routes r) {method path : Bytes}
    (hpath : NoWildcard path) (handler : H) :
    ∃ r', r.add method path handler = .ok r' ∧ StaticOk (routes ++ [(method, path, handler)]) r' := by
  have hhp : lit "/health" ≠ lit "/ping" := by decide
  unfold FastRouter.add
  split_ifs with hh hp
  · -- `GET /health`
    obtain ⟨rfl, rfl⟩ := hh
    refine ⟨_, rfl, hr.paramRoutes, hr.radix, ?_, rfl, ?_, hr.hasPing, fun k => ?_⟩
    · simp [lastHandler_append_single]
    · simp [lastHandler_append_single, hr.ping, Ne.symm hhp]
    · simp [getLast?_filter_append_single, dedicated, hr.staticMap]
  · -- `GET /ping`
    obtain ⟨rfl, rfl⟩ := hp
    refine ⟨_, rfl, hr.paramRoutes, hr.radix, ?_, hr.hasHealth, ?_, rfl, fun k => ?_⟩
    · simp [lastHandler_append_single, hr.health, hhp]
    · simp [lastHandler_append_single]
    · simp [getLast?_filter_append_single, dedicated, hr.staticMap]
  · -- any other static route
    have hd : ¬dedicated method path := fun h => h.elim hh hp
    refine ⟨_, rfl, hr.paramRoutes, hr.radix, ?_, hr.hasHealth, ?_, hr.hasPing, fun k => ?_⟩
    · rw [lastHandler_append_single, if_neg fun h => hh ⟨h.2.symm, h.1.symm⟩, hr.health]
    · rw [lastHandler_append_single, if_neg fun h => hp ⟨h.2.symm, h.1.symm⟩, hr.ping]
    · dsimp only
      rw [GoMap.get_set, getLast?_filter_append_single]
      by_cases hk : k = hashRoute method path
      · subst hk
        simp [hd]
      · rw [Function.update_noteq hk, hr.staticMap]
        simp [Ne.symm hk]
  all_goals exact absurd (show colon ∉ path ∧ star ∉ path from hpath) (by assumption)

theorem find_newRadixRouter (m q : Bytes) : (newRadixRouter : RadixRouter H).find m q = .ok (none, []) := by
  cases q <;> simp [RadixRouter.find, newRadixRouter, Node.empty, getValue, getWildcard, Node.lookupHandler]

theorem lastStatic_of_hash {routes : Routes H} {m q : Bytes}
    (hq : ∀ x ∈ routes, hashRoute x.1 x.2.1 = hashRoute m q → x.1 = m ∧ x.2.1 = q) :
    (routes.filter fun x => ¬dedicated x.1 x.2.1 ∧ hashRoute x.1 x.2.1 = hashRoute m q).getLast?.map (·.2.2) =
      if dedicated m q then none else lastHandler routes m q := by
  have hcongr : routes.filter (fun x => ¬dedicated x.1 x.2.1 ∧ hashRoute x.1 x.2.1 = hashRoute m q) =
      routes.filter (fun x => ¬dedicated m q ∧ (x.1 = m ∧ x.2.1 = q)) := List.filter_congr fun x hx => by
    by_cases hx' : x.1 = m ∧ x.2.1 = q
    · simp [hx'.1, hx'.2]
    · have : hashRoute x.1 x.2.1 ≠ hashRoute m q := fun h => hx' (hq x hx h)
      simp [this, hx']
  rw [hcongr, lastHandler]
  by_cases hd : dedicated m q <;> simp [hd]

theorem StaticOk.find {routes : Routes H} {r : FastRouter H} (hr : StaticOk routes r) {m q : Bytes}
    (hq : ∀ x ∈ routes, hashRoute x.1 x.2.1 = hashRoute m q → x.1 = m ∧ x.2.1 = q) :
    r.find m q = .ok (lastHandler routes m q, []) := by
  have hfallback : (match findParamRouteFast m q r.paramRoutes with
      | (some h, params) => (.ok (some h, params) : Lookup H)
      | (none, _) => r.radix.find m q) = .ok (none, []) := by
    rw [hr.paramRoutes, hr.radix]
    exact find_newRadixRouter m q
  unfold FastRouter.find
  rw [hr.staticMap, lastStatic_of_hash hq, hr.hasHealth, hr.health, hr.hasPing, hr.ping]
  have h7 : (lit "/health").length = 7 := by decide
  have h5 : (lit "/ping").length = 5 := by decide
  have hhp : lit "/health" ≠ lit "/ping" := by decide
  by_cases hh : m = lit "GET" ∧ q = lit "/health"
  · obtain ⟨rfl, rfl⟩ := hh
    cases hl : lastHandler routes (lit "GET") (lit "/health") with
    | some h => simp [h7]
    | none => simpa [dedicated, hl, hhp] using hfallback
  · by_cases hp : m = lit "GET" ∧ q = lit "/ping"
    · obtain ⟨rfl, rfl⟩ := hp
      cases hl : lastHandler routes (lit "GET") (lit "/ping") with
      | some h => simp [h5, Ne.symm hhp]
      | none => simpa [dedicated, hl, Ne.symm hhp] using hfallback
    · have hd : ¬dedicated m q := fun h => h.elim hh hp
      rw [if_neg fun h => hh ⟨h.2.2.2, h.2.2.1⟩, if_neg fun h => hp ⟨h.2.2.2, h.2.2.1⟩, if_neg hd]
      cases lastHandler routes m q with
      | some h => rfl
      | none => exact hfallback

/-- For every table of routes without ':' or '*', the `Add`s of a new `FastRouter` succeed, and
`Find` answers as the reference router (the handler of the last `Add` for the method and path,
no params) for every method and path whose FNV-1a hash no other method and path of the table
shares. -/
theorem find_staticTable (routes : Routes H) (h : ∀ x ∈ routes, NoWildcard x.2.1) :
    ∃ r, newFastRouter.addAll routes = .ok r ∧ ∀ m q,
      (∀ x ∈ routes, hashRoute x.1 x.2.1 = hashRoute m q → x.1 = m ∧ x.2.1 = q) →
        r.find m q = .ok (refFind routes m q) := by
  suffices hok : ∃ r, newFastRouter.addAll routes = .ok r ∧ StaticOk routes r by
    obtain ⟨r, hadd, hr⟩ := hok
    exact ⟨r, hadd, fun m q hq => by rw [hr.find hq, refFind_of_noWildcard h]⟩
  induction routes using List.reverseRecOn with
  | nil => exact ⟨_, rfl, rfl, rfl, rfl, rfl, rfl, rfl, fun _ => rfl⟩
  | append_singleton routes route ih =>
      obtain ⟨method, path, handler⟩ := route
      obtain ⟨r, hadd, hr⟩ := ih fun x hx => h x (List.mem_append_left _ hx)
      obtain ⟨r', hadd', hr'⟩ := hr.add (h _ (List.mem_append_right _ (List.mem_singleton_self _))) handler
      exact ⟨r', by rw [addAll_append, hadd, except_ok_bind, hadd'], hr'⟩

/-- `GET /health`, and `/about` for two methods. -/
theorem find_staticTable_about :
    let routes : Routes Nat := [(lit "GET", lit "/health", 1), (lit "GET", lit "/about", 2), (lit "POST", lit "/about", 3)]
    (∀ x ∈ routes, NoWildcard x.2.1) ∧
      ∃ r, newFastRouter.addAll routes = .ok r ∧ ∀ m q,
        (∀ x ∈ routes, hashRoute x.1 x.2.1 = hashRoute m q → x.1 = m ∧ x.2.1 = q) →
          r.find m q = .ok (refFind routes m q) :=
  ⟨by decide, find_staticTable _ (by decide)⟩

end FastServer.Fast
