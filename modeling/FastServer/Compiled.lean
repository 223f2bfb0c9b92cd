import FastServer.Radix

namespace FastServer.Compiled

open Radix (Params)
open RouteSpec (Routes refFind)

variable {H : Type}

/-- A `compiledNode`. `staticChildren` stands for the `[128]*compiledNode` array, one entry
per occupied index; indexing it at a byte of 128 or more is Go's index panic. -/
structure CompiledNode (H : Type) where
  staticChildren : List (UInt8 × CompiledNode H)
  paramChild : Option (CompiledNode H)
  paramName : Bytes
  handlers : GoMap Bytes H
  segment : Bytes

def CompiledNode.empty : CompiledNode H := ⟨[], none, [], [], []⟩

structure WildcardRoute (H : Type) where
  pre : Bytes
  paramKey : Bytes
  handlers : GoMap Bytes H

/-- A `CompiledRouter`; `cache` is the `sync.Map` from `method + ":" + path` to a hit. The
`hits`/`misses` counters are never updated by the source and are left out. -/
structure CompiledRouter (H : Type) where
  staticRoutes : GoMap Bytes (GoMap Bytes H)
  paramRoutes : CompiledNode H
  wildcardRoutes : List (WildcardRoute H)
  cache : GoMap Bytes (H × Params)

def newCompiledRouter : CompiledRouter H := ⟨[], CompiledNode.empty, [], []⟩

/-- `strings.Split(s, "/")`. -/
def splitSlash : Bytes → List Bytes
  | [] => [[]]
  | c :: rest =>
      if c = slash then [] :: splitSlash rest
      else match splitSlash rest with
        | s :: ss => (c :: s) :: ss
        | [] => [[c]]

def indexLimit : Nat := 128

/-- The loop of `addParamRoute` over the remaining segments, from `node`. -/
def addSegments (method : Bytes) (handler : H) :
    CompiledNode H → List Bytes → Except String (CompiledNode H)
  | node, [] => .ok { node with handlers := node.handlers.set method handler }
  | node, segment :: segments =>
      match segment with
      | [] => addSegments method handler node segments
      | idx :: name =>
          if idx = colon then do
            let child := node.paramChild.getD { CompiledNode.empty with paramName := name }
            let child ← addSegments method handler child segments
            .ok { node with paramChild := some child }
          else if indexLimit ≤ idx.toNat then .error "index out of range"
          else do
            let child := (GoMap.get node.staticChildren idx).getD { CompiledNode.empty with segment := segment }
            let child ← addSegments method handler child segments
            .ok { node with staticChildren := GoMap.set node.staticChildren idx child }

/-- `CompiledRouter.Add`. -/
def CompiledRouter.add (r : CompiledRouter H) (method path : Bytes) (handler : H) :
    Except String (CompiledRouter H) :=
  match path with
  | [] => .error "index out of range"
  | c :: rest =>
      if c ≠ slash then .error "path must begin with '/'"
      else if colon ∉ path ∧ star ∉ path then
        .ok { r with staticRoutes :=
          r.staticRoutes.set path (((r.staticRoutes.get path).getD []).set method handler) }
      else if star ∈ path then
        let idx := path.indexOf star
        .ok { r with wildcardRoutes := r.wildcardRoutes ++
          [⟨path.take idx, path.drop (idx + 1), [(method, handler)]⟩] }
      else (addSegments method handler r.paramRoutes (splitSlash rest)).map
        ({ r with paramRoutes := · })

/-- The loop of `findParamRoute` over the remaining segments, at `node`. -/
def findSegments (method : Bytes) :
    CompiledNode H → List Bytes → Params → Except String (Option H × Params)
  | node, [], params =>
      match node.handlers.get method with
      | some h => .ok (some h, params)
      | none => .ok (none, [])
  | node, segment :: segments, params =>
      match segment with
      | [] => findSegments method node segments params
      | idx :: _ =>
          if indexLimit ≤ idx.toNat then .error "index out of range"
          else match (GoMap.get node.staticChildren idx).filter (·.segment = segment), node.paramChild with
            | some child, _ => findSegments method child segments params
            | none, some child => findSegments method child segments (params.set child.paramName segment)
            | none, none => .ok (none, [])

/-- `findParamRoute`; `path[1:]` of an empty path is Go's slice-bounds panic. -/
def findParamRoute (root : CompiledNode H) (method path : Bytes) : Except String (Option H × Params) :=
  match path with
  | [] => .error "slice bounds out of range"
  | _ :: rest => findSegments method root (splitSlash rest) []

def findWildcardRoute (method path : Bytes) : List (WildcardRoute H) → Option H × Params
  | [] => (none, [])
  | route :: routes =>
      if hasPrefix path route.pre then
        match route.handlers.get method with
        | some h => (some h, [(route.paramKey, path.drop route.pre.length)])
        | none => findWildcardRoute method path routes
      else findWildcardRoute method path routes

/-- `CompiledRouter.Find`, with the router as it is left (the cache may have grown). -/
def CompiledRouter.find (r : CompiledRouter H) (method path : Bytes) :
    Except String (Option H × Params) × CompiledRouter H :=
  let cacheKey := method ++ lit ":" ++ path
  match r.cache.get cacheKey with
  | some (h, params) => (.ok (some h, params), r)
  | none =>
      match (r.staticRoutes.get path).bind (·.get method) with
      | some h => (.ok (some h, []), { r with cache := r.cache.set cacheKey (h, []) })
      | none =>
          match findParamRoute r.paramRoutes method path with
          | .error e => (.error e, r)
          | .ok (some h, params) =>
              (.ok (some h, params), { r with cache := r.cache.set cacheKey (h, params) })
          | .ok (none, _) => (.ok (findWildcardRoute method path r.wildcardRoutes), r)

def CompiledRouter.addAll (r : CompiledRouter H) : Routes H → Except String (CompiledRouter H)
  | [] => .ok r
  | (m, p, h) :: routes => do
      let r ← r.add m p h
      r.addAll routes

/-- Two static segments with the same first byte share one slot of `staticChildren`: the
second route lands in the first one's subtree, and its own paths stop matching. An empty
path panics in `path[1:]`. -/
theorem find_misses_route_sharing_first_byte :
    refFind [(lit "GET", lit "/users/:id", 1), (lit "GET", lit "/uploads/:f", 2)]
        (lit "GET") (lit "/uploads/x") = (some 2, [(lit "f", lit "x")]) ∧
      (newCompiledRouter.addAll [(lit "GET", lit "/users/:id", (1 : Nat)), (lit "GET", lit "/uploads/:f", 2)]).map
        (fun r => (r.find (lit "GET") (lit "/uploads/x")).1) = .ok (.ok (none, [])) ∧
      (newCompiledRouter.find (H := Nat) (lit "GET") []).1 = .error "slice bounds out of range" := by
  decide

/-- `ClearCache`. -/
def CompiledRouter.clearCache (r : CompiledRouter H) : CompiledRouter H := { r with cache := [] }

/-- `Find` with nothing in the cache. -/
def CompiledRouter.uncached (r : CompiledRouter H) (method path : Bytes) : Except String (Option H × Params) :=
  (r.clearCache.find method path).1

/-- What a server does with a built router. -/
inductive Lookup
  | find (method path : Bytes)
  | clearCache

def Lookup.query : Lookup → Option (Bytes × Bytes)
  | .find method path => some (method, path)
  | .clearCache => none

/-- The answers of the `Find`s of a sequence of lookups, each on the router the one before left. -/
def CompiledRouter.serve (r : CompiledRouter H) : List Lookup → List (Except String (Option H × Params))
  | [] => []
  | .find method path :: ls => (r.find method path).1 :: (r.find method path).2.serve ls
  | .clearCache :: ls => r.clearCache.serve ls

/-- Every cached answer, under the key of a method without ':', is what the routes answer. -/
def CompiledRouter.CacheOk (r : CompiledRouter H) : Prop :=
  ∀ method path h params, colon ∉ method → r.cache.get (method ++ lit ":" ++ path) = some (h, params) →
    r.uncached method path = .ok (some h, params)

theorem cacheKey_inj {m m' p p' : Bytes} (hm : colon ∉ m) (hm' : colon ∉ m')
    (h : m ++ lit ":" ++ p = m' ++ lit ":" ++ p') : m = m' ∧ p = p' := by
  rw [show lit ":" = [colon] by decide, List.append_assoc, List.append_assoc, List.singleton_append,
    List.singleton_append] at h
  have hlen : m.length = m'.length := by
    simpa [List.indexOf_append_of_not_mem hm, List.indexOf_append_of_not_mem hm'] using congrArg (List.indexOf colon) h
  obtain ⟨rfl, ht⟩ := List.append_inj h hlen
  exact ⟨rfl, List.tail_eq_of_cons_eq ht⟩

theorem find_snd_clearCache (r : CompiledRouter H) (method path : Bytes) :
    (r.find method path).2.clearCache = r.clearCache := by
  unfold CompiledRouter.find
  dsimp only
  repeat' split
  all_goals rfl

theorem uncached_find_snd (r : CompiledRouter H) (method path : Bytes) :
    (r.find method path).2.uncached = r.uncached := by
  funext m p
  rw [CompiledRouter.uncached, CompiledRouter.uncached, find_snd_clearCache]

theorem find_fst_of_miss {r : CompiledRouter H} {method path : Bytes}
    (h : r.cache.get (method ++ lit ":" ++ path) = none) : (r.find method path).1 = r.uncached method path := by
  unfold CompiledRouter.uncached CompiledRouter.find
  dsimp only
  rw [h]
  simp only [CompiledRouter.clearCache, GoMap.get_nil]
  repeat' split
  all_goals rfl

theorem find_snd_cases (r : CompiledRouter H) (method path : Bytes) :
    (r.find method path).2 = r ∨ ∃ h params, r.cache.get (method ++ lit ":" ++ path) = none ∧
      (r.find method path).1 = .ok (some h, params) ∧
      (r.find method path).2 = { r with cache := r.cache.set (method ++ lit ":" ++ path) (h, params) } := by
  unfold CompiledRouter.find
  dsimp only
  split
  · exact .inl rfl
  · rename_i hmiss
    split
    · exact .inr ⟨_, [], hmiss, rfl, rfl⟩
    · split
      · exact .inl rfl
      · exact .inr ⟨_, _, hmiss, rfl, rfl⟩
      · exact .inl rfl

theorem CompiledRouter.CacheOk.find {r : CompiledRouter H} (hr : r.CacheOk) {method : Bytes} (hm : colon ∉ method) (path : Bytes) :
    (r.find method path).2.CacheOk := by
  rcases find_snd_cases r method path with heq | ⟨h, params, hmiss, hans, heq⟩
  · rw [heq]
    exact hr
  intro m p h' params' hm' hget
  rw [uncached_find_snd]
  rw [heq] at hget
  by_cases hk : method ++ lit ":" ++ path = m ++ lit ":" ++ p
  · -- the entry just stored
    obtain ⟨rfl, rfl⟩ := cacheKey_inj hm hm' hk
    rw [GoMap.get_set_self] at hget
    cases Option.some.inj hget
    rw [← find_fst_of_miss hmiss, hans]
  · exact hr m p h' params' hm' (by rwa [GoMap.get_set_ne _ _ hk] at hget)

theorem CompiledRouter.CacheOk.find_fst {r : CompiledRouter H} (hr : r.CacheOk) {method : Bytes} (hm : colon ∉ method) (path : Bytes) :
    (r.find method path).1 = r.uncached method path := by
  cases hc : r.cache.get (method ++ lit ":" ++ path) with
  | none => exact find_fst_of_miss hc
  | some v =>
      rw [hr method path v.1 v.2 hm hc]
      unfold CompiledRouter.find
      dsimp only
      rw [hc]

theorem cacheOk_clearCache (r : CompiledRouter H) : r.clearCache.CacheOk := fun _ _ _ _ _ h => by cases h

theorem CompiledRouter.CacheOk.serve {r : CompiledRouter H} (hr : r.CacheOk) (ls : List Lookup)
    (hls : ∀ q ∈ ls.filterMap Lookup.query, colon ∉ q.1) :
    r.serve ls = (ls.filterMap Lookup.query).map fun q => r.uncached q.1 q.2 := by
  induction ls generalizing r with
  | nil => rfl
  | cons l ls ih =>
      cases l with
      | find m p =>
          have hls' : ∀ q ∈ ls.filterMap Lookup.query, colon ∉ q.1 := fun q h => hls q (List.mem_cons_of_mem _ h)
          have hm : colon ∉ m := hls (m, p) (List.mem_cons_self _ _)
          rw [CompiledRouter.serve, ih (hr.find hm p) hls', uncached_find_snd, hr.find_fst hm]
          rfl
      | clearCache =>
          rw [CompiledRouter.serve, ih (cacheOk_clearCache r) hls]
          rfl

theorem add_cache {r r' : CompiledRouter H} {method path : Bytes} {handler : H}
    (h : r.add method path handler = .ok r') : r'.cache = r.cache := by
  unfold CompiledRouter.add at h
  split at h
  · cases h
  · rename_i c rest
    split_ifs at h
    · cases h
      rfl
    · cases h
      rfl
    · cases hs : addSegments method handler r.paramRoutes (splitSlash rest) with
      | error e =>
          rw [hs] at h
          cases h
      | ok n =>
          rw [hs] at h
          cases h
          rfl

theorem addAll_cache {r r' : CompiledRouter H} {routes : Routes H} (h : r.addAll routes = .ok r') :
    r'.cache = r.cache := by
  induction routes generalizing r with
  | nil => cases h; rfl
  | cons route routes ih =>
      obtain ⟨m, p, handler⟩ := route
      obtain ⟨r₁, h₁, h⟩ := except_bind_eq_ok.mp h
      rw [ih h, add_cache h₁]

theorem cacheOk_addAll (routes : Routes H) {r : CompiledRouter H} (hr : newCompiledRouter.addAll routes = .ok r) :
    r.CacheOk := fun _ _ _ _ _ h => by
  rw [addAll_cache hr] at h
  cases h

/-- On a router built by `Add`s from `NewCompiledRouter`, the route cache never changes an
answer: along any sequence of `Find`s and `ClearCache`s whose methods hold no ':', every `Find`
answers as `Find` does with nothing cached. -/
theorem serve_eq_uncached (routes : Routes H) {r : CompiledRouter H} (hr : newCompiledRouter.addAll routes = .ok r)
    (ls : List Lookup) (hls : ∀ q ∈ ls.filterMap Lookup.query, colon ∉ q.1) :
    r.serve ls = (ls.filterMap Lookup.query).map fun q => r.uncached q.1 q.2 :=
  (cacheOk_addAll routes hr).serve ls hls

/-- A parameter route and a static one, each found twice around a `ClearCache`. -/
theorem serve_eq_uncached_users :
    let routes : Routes Nat := [(lit "GET", lit "/users/:id", 1), (lit "GET", lit "/about", 2)]
    let ls := [Lookup.find (lit "GET") (lit "/users/7"), .find (lit "GET") (lit "/users/7"), .clearCache,
      .find (lit "GET") (lit "/about"), .find (lit "GET") (lit "/about")]
    ∃ r : CompiledRouter Nat, newCompiledRouter.addAll routes = .ok r ∧
      (∀ q ∈ ls.filterMap Lookup.query, colon ∉ q.1) ∧
      r.serve ls = (ls.filterMap Lookup.query).map fun q => r.uncached q.1 q.2 := by
  intro routes ls
  cases h : newCompiledRouter.addAll routes with
  | error e =>
      have : (newCompiledRouter.addAll routes).toBool = true := by decide
      rw [h] at this
      cases this
  | ok r => exact ⟨r, rfl, by decide, serve_eq_uncached routes h ls (by decide)⟩

open RouteSpec (StaticTable NoWildcard lastHandler lastHandler_append_single refFind_of_noWildcard)

/-- The first byte of the first non-empty segment after a path's first byte. -/
def firstSegmentByte (path : Bytes) : Option UInt8 := ((splitSlash path.tail).find? (· ≠ [])).bind List.head?

/-- What the compiled router answers on a static table. -/
def staticFind (routes : Routes H) (method path : Bytes) : Except String (Option H × Params) :=
  if (lastHandler routes method path).isNone then
    if path = [] then .error "slice bounds out of range"
    else if (firstSegmentByte path).any (indexLimit ≤ ·.toNat) then .error "index out of range"
    else .ok (refFind routes method path)
  else .ok (refFind routes method path)

theorem addAll_append (r : CompiledRouter H) (routes : Routes H) (route : Bytes × Bytes × H) :
    r.addAll (routes ++ [route]) = r.addAll routes >>= fun r => r.add route.1 route.2.1 route.2.2 := by
  induction routes generalizing r with
  | nil =>
      show (do let r ← r.add route.1 route.2.1 route.2.2; .ok r) = r.add route.1 route.2.1 route.2.2
      cases r.add route.1 route.2.1 route.2.2 <;> rfl
  | cons x routes ih =>
      obtain ⟨m, p, h⟩ := x
      simp only [List.cons_append, CompiledRouter.addAll]
      cases r.add m p h with
      | error e => rfl
      | ok r' => exact ih r'

theorem add_static (r : CompiledRouter H) {method path : Bytes} (hslash : path.head? = some slash)
    (hpath : NoWildcard path) (handler : H) :
    r.add method path handler =
      .ok { r with staticRoutes := r.staticRoutes.set path (((r.staticRoutes.get path).getD []).set method handler) } := by
  match path, hslash with
  | c :: rest, hc =>
      cases hc
      rw [CompiledRouter.add, if_neg (not_not.mpr rfl),
        if_pos (show colon ∉ slash :: rest ∧ star ∉ slash :: rest from hpath)]

theorem bind_get_eq_getD {K V : Type} [DecidableEq K] (o : Option (GoMap K V)) (k : K) :
    o.bind (·.get k) = (o.getD []).get k := by
  cases o <;> rfl

theorem addAll_staticTable (routes : Routes H) (h : StaticTable routes) :
    ∃ r, newCompiledRouter.addAll routes = .ok r ∧ r.paramRoutes = CompiledNode.empty ∧ r.wildcardRoutes = [] ∧
      r.cache = [] ∧ ∀ m p, (r.staticRoutes.get p).bind (·.get m) = lastHandler routes m p := by
  induction routes using List.reverseRecOn with
  | nil => exact ⟨_, rfl, rfl, rfl, rfl, fun _ _ => rfl⟩
  | append_singleton routes route ih =>
      obtain ⟨method, path, handler⟩ := route
      have hr := h (method, path, handler) (List.mem_append_right _ (List.mem_singleton_self _))
      obtain ⟨r, hadd, hparam, hwild, hcache, hget⟩ := ih fun x hx => h x (List.mem_append_left _ hx)
      have hadd' : newCompiledRouter.addAll (routes ++ [(method, path, handler)]) =
          .ok { r with staticRoutes := r.staticRoutes.set path (((r.staticRoutes.get path).getD []).set method handler) } := by
        rw [addAll_append, hadd, except_ok_bind, add_static r hr.1 hr.2]
      refine ⟨_, hadd', hparam, hwild, hcache, fun m p => ?_⟩
      rw [lastHandler_append_single, ← hget]
      dsimp only
      by_cases hp : p = path
      · subst hp
        rw [GoMap.get_set_self, Option.some_bind, bind_get_eq_getD]
        by_cases hm : m = method
        · subst hm
          simp
        · simp [hm, GoMap.get_set_ne _ _ (Ne.symm hm)]
      · simp [hp, GoMap.get_set_ne _ _ (Ne.symm hp)]

theorem findSegments_empty (method : Bytes) (segs : List Bytes) (params : Params) :
    findSegments method (CompiledNode.empty : CompiledNode H) segs params =
      if ((segs.find? (· ≠ [])).bind List.head?).any (indexLimit ≤ ·.toNat) then .error "index out of range"
      else .ok (none, []) := by
  induction segs with
  | nil => rfl
  | cons seg segs ih =>
      cases seg with
      | nil => simpa [findSegments] using ih
      | cons b rest =>
          by_cases hb : indexLimit ≤ b.toNat
          · simp [findSegments, hb]
          · simp [findSegments, hb, CompiledNode.empty]

theorem uncached_static {r : CompiledRouter H} (hparam : r.paramRoutes = CompiledNode.empty)
    (hwild : r.wildcardRoutes = []) (method path : Bytes) :
    r.uncached method path =
      match (r.staticRoutes.get path).bind (·.get method) with
      | some handler => .ok (some handler, [])
      | none =>
          if path = [] then .error "slice bounds out of range"
          else if (firstSegmentByte path).any (indexLimit ≤ ·.toNat) then .error "index out of range"
          else .ok (none, []) := by
  unfold CompiledRouter.uncached CompiledRouter.find
  simp only [CompiledRouter.clearCache, GoMap.get_nil]
  cases (r.staticRoutes.get path).bind (·.get method) with
  | some handler => rfl
  | none =>
      simp only [hparam, hwild]
      cases path with
      | nil => rfl
      | cons c rest =>
          simp only [findParamRoute, findSegments_empty, firstSegmentByte, List.tail_cons, reduceCtorEq, if_false]
          split_ifs <;> rfl

theorem uncached_staticTable (routes : Routes H) (h : StaticTable routes) :
    ∃ r, newCompiledRouter.addAll routes = .ok r ∧ ∀ m p, r.uncached m p = staticFind routes m p := by
  obtain ⟨r, hadd, hparam, hwild, -, hget⟩ := addAll_staticTable routes h
  refine ⟨r, hadd, fun m p => ?_⟩
  rw [uncached_static hparam hwild, hget, staticFind, refFind_of_noWildcard fun x hx => (h x hx).2]
  cases lastHandler routes m p <;> rfl

/-- For every table of routes that start with '/' and hold no ':' or '*', the `Add`s succeed, and
along any sequence of `Find`s and `ClearCache`s whose methods hold no ':', each `Find` answers as
the reference router does (the handler of the last `Add` of that method and path), except that a
path no route matches panics when it is empty, or when its first non-empty segment starts with
a byte of 128 or more. -/
theorem serve_staticTable (routes : Routes H) (h : StaticTable routes) :
    ∃ r, newCompiledRouter.addAll routes = .ok r ∧ ∀ ls : List Lookup, (∀ q ∈ ls.filterMap Lookup.query, colon ∉ q.1) →
      r.serve ls = (ls.filterMap Lookup.query).map fun q => staticFind routes q.1 q.2 := by
  obtain ⟨r, hadd, hr⟩ := uncached_staticTable routes h
  refine ⟨r, hadd, fun ls hls => ?_⟩
  rw [(cacheOk_addAll routes hadd).serve ls hls]
  exact List.map_congr_left fun q _ => hr q.1 q.2

/-- `/about` added twice and `/` once. -/
theorem serve_staticTable_about :
    let routes : Routes Nat := [(lit "GET", lit "/about", 1), (lit "GET", lit "/", 2), (lit "GET", lit "/about", 3)]
    StaticTable routes ∧
      ∃ r, newCompiledRouter.addAll routes = .ok r ∧ ∀ ls : List Lookup, (∀ q ∈ ls.filterMap Lookup.query, colon ∉ q.1) →
        r.serve ls = (ls.filterMap Lookup.query).map fun q => staticFind routes q.1 q.2 :=
  ⟨by decide, serve_staticTable _ (by decide)⟩

end FastServer.Compiled
