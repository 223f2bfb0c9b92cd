import FastServer.RouteSpec

namespace FastServer.Radix

open RouteSpec (Routes refFind)

variable {H : Type}

inductive NodeType
  | static
  | param
  | catchAll
  deriving DecidableEq, Repr

/-- A node of the route tree. `handlers` is the method map; `children` keeps the order of
`addChild`, and the static ones are meant to be those named by `indices`. -/
structure Node (H : Type) where
  path : Bytes
  indices : Bytes
  children : List (Node H)
  handlers : GoMap Bytes H
  priority : UInt32
  nType : NodeType
  paramName : Bytes

/-- The zero `node{}`. -/
def Node.empty : Node H := ⟨[], [], [], [], 0, .static, []⟩

structure RadixRouter (H : Type) where
  root : Node H

def newRadixRouter : RadixRouter H := ⟨Node.empty⟩

/-- What `Add` can end in besides returning: a Go panic with its message, or the model's
iteration budget running out (which the Go loops do not have). -/
inductive AddError
  | panic (msg : String)
  | outOfFuel
  deriving DecidableEq, Repr

def longestCommonPrefix : Bytes → Bytes → Nat
  | a :: as, b :: bs => if a = b then longestCommonPrefix as bs + 1 else 0
  | _, _ => 0

/-- The inner loop of `findWildcard`: the length of the name that follows the wildcard byte
(up to the next `/`) and whether that name is free of `:` and `*`. -/
def wildcardEnd : Bytes → Nat × Bool
  | [] => (0, true)
  | c :: rest =>
      if c = slash then (0, true)
      else ((wildcardEnd rest).1 + 1, (wildcardEnd rest).2 && !(c = colon || c = star))

/-- `findWildcard`, from byte offset `start`: `none` is the result `i = -1`, otherwise the
wildcard, its offset and `valid`. -/
def findWildcardFrom : Bytes → Nat → Option (Bytes × Nat × Bool)
  | [], _ => none
  | c :: rest, start =>
      if c = colon ∨ c = star then
        some (c :: rest.take (wildcardEnd rest).1, start, (wildcardEnd rest).2)
      else findWildcardFrom rest (start + 1)

def findWildcard (path : Bytes) : Option (Bytes × Nat × Bool) := findWildcardFrom path 0

def Node.addChild (n : Node H) (child : Node H) : Node H :=
  { n with children := n.children ++ [child] }

def Node.setHandler (n : Node H) (method : Bytes) (handler : H) : Node H :=
  { n with handlers := n.handlers.set method handler }

/-- The edge split at offset `i` of `node.addRoute`: the suffix moves to a new only child that
takes over indices, children, handlers and type, but not `paramName`. -/
def Node.splitEdge (n : Node H) (i : Nat) (path : Bytes) : Node H :=
  let child : Node H :=
    { (Node.empty : Node H) with
      path := n.path.drop i, indices := n.indices, children := n.children,
      handlers := n.handlers, priority := n.priority - 1, nType := n.nType }
  { n with children := [child], indices := [n.path.getD i 0], path := path.take i,
           handlers := [], nType := .static }

/-- The loop of `node.insertChild` at node `n`; each iteration spends one unit of `fuel`. -/
def insertChild (method : Bytes) (handler : H) : Nat → Node H → Bytes → Except AddError (Node H)
  | 0, _, _ => .error .outOfFuel
  | fuel + 1, n, path =>
      match findWildcard path with
      | none => .ok ({ n with path := path }.setHandler method handler)
      | some (wildcard, i, valid) =>
          if !valid then .error (.panic "only one wildcard per path segment is allowed")
          else if wildcard.length < 2 then .error (.panic "wildcards must be named")
          else if wildcard.head? = some colon then
            let n := if 0 < i then { n with path := path.take i } else n
            let path := if 0 < i then path.drop i else path
            let child : Node H :=
              { (Node.empty : Node H) with
                nType := .param, path := wildcard, paramName := wildcard.drop 1, priority := 1 }
            if wildcard.length < path.length then do
              let grand ← insertChild method handler fuel { (Node.empty : Node H) with priority := 1 }
                (path.drop wildcard.length)
              .ok (n.addChild (child.addChild grand))
            else .ok (n.addChild (child.setHandler method handler))
          else if i + wildcard.length ≠ path.length then
            .error (.panic "catch-all routes are only allowed at the end of the path")
          else if n.path.getLast? = some slash then
            .ok ({ n with path := path.take i }.addChild
              { (Node.empty : Node H) with
                nType := .catchAll, path := wildcard, paramName := wildcard.drop 1,
                handlers := [(method, handler)], priority := 1 })
          else .error (.panic "catch-all conflicts with existing handle for the path segment")

/-- The loop of `node.addRoute` at the node `n` it has walked to. Walking into a child is a
recursive call whose result replaces that child; the branch "'/' after param" of the source
is not reached, since a param node has already continued above it. -/
def addRouteLoop (method : Bytes) (handler : H) : Nat → Node H → Bytes → Except AddError (Node H)
  | 0, _, _ => .error .outOfFuel
  | fuel + 1, n, path =>
      let i := longestCommonPrefix path n.path
      let n := if i < n.path.length then n.splitEdge i path else n
      if i < path.length then
        let path := path.drop i
        if n.nType = .param then
          addRouteLoop method handler fuel { n with priority := n.priority + 1 } path
        else
          let idxc := path.headD 0
          match n.indices.findIdx? (· = idxc) with
          | some k =>
              match n.children.get? k with
              | none => .error (.panic "index out of range")
              | some child => do
                  let child ← addRouteLoop method handler fuel child path
                  .ok { n with priority := n.priority + 1, children := n.children.set k child }
          | none =>
              if idxc ≠ colon ∧ idxc ≠ star then do
                let child ← insertChild method handler fuel Node.empty path
                .ok ({ n with indices := n.indices ++ [idxc] }.addChild child)
              else insertChild method handler fuel n path
      else .ok (n.setHandler method handler)

def Node.addRoute (n : Node H) (fuel : Nat) (method path : Bytes) (handler : H) :
    Except AddError (Node H) :=
  if n.path = [] ∧ n.children.length = 0 then do
    let n ← insertChild method handler fuel n path
    .ok { n with nType := .static }
  else addRouteLoop method handler fuel n path

mutual
def Node.height : Node H → Nat
  | ⟨_, _, children, _, _, _, _⟩ => heightList children + 1

def heightList : List (Node H) → Nat
  | [] => 0
  | c :: cs => max c.height (heightList cs)
end

/-- The iteration budget given to one `Add`: the loops never need more on reachable trees. -/
def addFuel (n : Node H) (path : Bytes) : Nat := path.length + n.height + 2

/-- `RadixRouter.Add`; `path[0]` of an empty path is Go's index panic. -/
def RadixRouter.add (r : RadixRouter H) (method path : Bytes) (handler : H) :
    Except AddError (RadixRouter H) :=
  match path.head? with
  | none => .error (.panic "index out of range")
  | some c =>
      if c ≠ slash then .error (.panic "path must begin with '/'")
      else (r.root.addRoute (addFuel r.root path) method path handler).map RadixRouter.mk

/-- The params map of `getValue`. -/
abbrev Params := GoMap Bytes Bytes

/-- The outcome of `getValue`: Go's index panic, or the handler (if any) with the params. -/
abbrev Lookup (H : Type) := Except String (Option H × Params)

def Node.lookupHandler (n : Node H) (method : Bytes) (params : Params) : Lookup H :=
  match n.handlers.get method with
  | some h => .ok (some h, params)
  | none => .ok (none, [])

mutual
/-- The loop of `node.getValue` at node `n`, with the unmatched `path`. -/
def getValue (method : Bytes) : Node H → Bytes → Params → Lookup H
  | ⟨pfx, indices, children, handlers, p, t, name⟩, path, params =>
      if pfx.length < path.length ∧ path.take pfx.length = pfx then
        let path := path.drop pfx.length
        match indices.findIdx? (· = path.headD 0) with
        | some i => getIndexed method children i path params
        | none => getWildcard method children path params
      else if path ≠ pfx then .ok (none, [])
      else Node.lookupHandler ⟨pfx, indices, children, handlers, p, t, name⟩ method params

/-- `n = n.children[i]; continue`. -/
def getIndexed (method : Bytes) : List (Node H) → Nat → Bytes → Params → Lookup H
  | [], _, _, _ => .error "index out of range"
  | c :: _, 0, path, params => getValue method c path params
  | _ :: cs, i + 1, path, params => getIndexed method cs i path params

/-- The wildcard step at the last child, when it is not static. -/
def getWildcard (method : Bytes) : List (Node H) → Bytes → Params → Lookup H
  | [], _, _ => .ok (none, [])
  | [⟨wpath, windices, wchildren, whandlers, wp, t, name⟩], path, params =>
      let w : Node H := ⟨wpath, windices, wchildren, whandlers, wp, t, name⟩
      match t with
      | .static => .ok (none, [])
      | .param =>
          let value := path.takeWhile (· ≠ slash)
          let params := params.set name value
          if value.length < path.length then
            match wchildren with
            | [] => .ok (none, [])
            | _ :: _ => getIndexed method wchildren 0 (path.drop value.length) params
          else w.lookupHandler method params
      | .catchAll => w.lookupHandler method (params.set name path)
  | _ :: cs, path, params => getWildcard method cs path params
end

/-- `RadixRouter.Find`. -/
def RadixRouter.find (r : RadixRouter H) (method path : Bytes) : Lookup H :=
  getValue method r.root path []

/-- Registers routes `(method, pattern, handler)` one `Add` after the other. -/
def RadixRouter.addAll (r : RadixRouter H) : List (Bytes × Bytes × H) → Except AddError (RadixRouter H)
  | [] => .ok r
  | (m, p, h) :: routes => do
      let r ← r.add m p h
      r.addAll routes

/-- Same method set, param pattern, two methods: the second `Add` puts a second param child
after the first, and lookup only ever tries the last child. -/
theorem find_loses_param_route_of_first_method :
    refFind [(lit "GET", lit "/user/:id", 1), (lit "POST", lit "/user/:id", 2)]
        (lit "GET") (lit "/user/1") = (some 1, [(lit "id", lit "1")]) ∧
      (newRadixRouter.addAll [(lit "GET", lit "/user/:id", (1 : Nat)), (lit "POST", lit "/user/:id", 2)]).map
        (·.find (lit "GET") (lit "/user/1")) = .ok (.ok (none, [])) := by
  decide

/-- Part (b) of the representation invariant at node `n`, for the `i`-th index byte: the
`i`-th child is static and its path starts with that byte. -/
def Node.indexedChild (n : Node H) (i : Nat) : Bool :=
  match n.children.get? i with
  | some c => c.nType = .static && c.path.head? = n.indices.get? i
  | none => false

/-- The number of param and catch-all children of `n`. -/
def Node.wildcardChildren (n : Node H) : Nat := (n.children.filter (·.nType ≠ .static)).length

/-- A static route added after a param sibling gets its index byte, but `addChild` appends it
behind the param child, so the index names the param node; the same param pattern added
for a second method gives a second wildcard child. -/
theorem reachable_tree_breaks_child_index :
    (newRadixRouter.addAll [(lit "GET", lit "/user/:id", (1 : Nat)), (lit "GET", lit "/user/admin", 2)]).map
        (·.root.indexedChild 0) = .ok false ∧
      (newRadixRouter.addAll [(lit "GET", lit "/user/:id", (1 : Nat)), (lit "POST", lit "/user/:id", 2)]).map
        (·.root.wildcardChildren) = .ok 2 := by
  decide

section CatchAll

theorem wildcardEnd_valid {rest : Bytes} (h : (wildcardEnd rest).2 = true) :
    colon ∉ rest.take (wildcardEnd rest).1 ∧ star ∉ rest.take (wildcardEnd rest).1 := by
  induction rest with
  | nil => simp
  | cons c rest ih =>
      by_cases hc : c = slash
      · simp [wildcardEnd, hc]
      · simp only [wildcardEnd, hc, if_false, Bool.and_eq_true, Bool.not_eq_true', Bool.or_eq_false_iff,
          decide_eq_false_iff_not] at h ⊢
        simp only [List.take_succ_cons, List.mem_cons, not_or]
        exact ⟨⟨fun e => h.2.1 e.symm, (ih h.1).1⟩, fun e => h.2.2 e.symm, (ih h.1).2⟩

theorem findWildcardFrom_some {path w : Bytes} {start i : Nat} {valid : Bool}
    (h : findWildcardFrom path start = some (w, i, valid)) :
    ∃ pre rest, path = pre ++ w ++ rest ∧ i = start + pre.length ∧ colon ∉ pre ∧ star ∉ pre ∧
      (w.head? = some colon ∨ w.head? = some star) ∧ (valid = true → colon ∉ w.tail ∧ star ∉ w.tail) := by
  induction path generalizing start with
  | nil => cases h
  | cons c rest ih =>
      simp only [findWildcardFrom] at h
      split at h
      · cases h
        refine ⟨[], rest.drop (wildcardEnd rest).1, by simp, rfl, by simp, by simp, by simpa, wildcardEnd_valid⟩
      · obtain ⟨pre, rest', rfl, rfl, hcol, hstar, hw, hv⟩ := ih h
        have hc : c ≠ colon ∧ c ≠ star := by simpa [not_or] using ‹¬(c = colon ∨ c = star)›
        exact ⟨c :: pre, rest', rfl, by simp; omega, by simp [hcol, Ne.symm hc.1], by simp [hstar, Ne.symm hc.2],
          hw, hv⟩

theorem findWildcardFrom_none {path : Bytes} {start : Nat} (h : findWildcardFrom path start = none) :
    star ∉ path := by
  induction path generalizing start with
  | nil => simp
  | cons c rest ih =>
      simp only [findWildcardFrom] at h
      split at h
      · cases h
      · simp only [List.mem_cons, not_or]
        exact ⟨fun e => ‹¬(c = colon ∨ c = star)› (.inr e.symm), ih h⟩

/-- The loop of `insertChild` at a node whose path is empty panics on every path holding a `*`:
the catch-all branch wants the node's path to end in `/`, and a param on the way hands the rest
to a new child whose path is empty too. -/
theorem insertChild_star_panics (method : Bytes) (handler : H) (fuel : Nat) (n : Node H) (path : Bytes) (hn : n.path = [])
    (hstar : star ∈ path) (hfuel : path.length < fuel) :
    ∃ msg, insertChild method handler fuel n path = .error (.panic msg) := by
  induction fuel generalizing n path with
  | zero => omega
  | succ fuel ih =>
      rw [insertChild]
      cases hw : findWildcard path with
      | none => exact absurd hstar (findWildcardFrom_none hw)
      | some r =>
          obtain ⟨w, i, valid⟩ := r
          obtain ⟨pre, rest, rfl, rfl, -, hpre, -, hvalid⟩ := findWildcardFrom_some hw
          dsimp only
          cases valid with
          | false => exact ⟨_, rfl⟩
          | true =>
              rw [if_neg (by decide)]
              by_cases hshort : w.length < 2
              · rw [if_pos hshort]; exact ⟨_, rfl⟩
              rw [if_neg hshort]
              by_cases hparam : w.head? = some colon
              · -- a param: the rest of the path, after the wildcard, holds the `*`
                have hw' : w = colon :: w.tail := List.eq_cons_of_mem_head? (Option.mem_def.mpr hparam)
                have hrest : star ∈ rest := by
                  have hnot : star ∉ w := by
                    rw [hw', List.mem_cons, not_or]
                    exact ⟨by decide, (hvalid rfl).2⟩
                  simp only [List.mem_append] at hstar
                  exact hstar.resolve_left (not_or.mpr ⟨hpre, hnot⟩)
                have hpath : (if 0 < 0 + pre.length then (pre ++ w ++ rest).drop (0 + pre.length)
                    else pre ++ w ++ rest) = w ++ rest := by
                  split
                  · simp
                  · obtain rfl : pre = [] := List.length_eq_zero.mp (by omega)
                    rfl
                have hlen : w.length < (w ++ rest).length := by
                  simpa using List.length_pos_of_mem hrest
                obtain ⟨msg, hmsg⟩ := ih { (Node.empty : Node H) with priority := 1 } rest rfl hrest (by
                  simp only [List.length_append] at hfuel; omega)
                rw [if_pos hparam, hpath, if_pos hlen, List.drop_left, hmsg]
                exact ⟨msg, rfl⟩
              · -- a catch-all: not at the end, or at a node whose path does not end in `/`
                rw [if_neg hparam]
                by_cases hend : 0 + pre.length + w.length ≠ (pre ++ w ++ rest).length
                · rw [if_pos hend]; exact ⟨_, rfl⟩
                · rw [if_neg hend, if_neg (by simp [hn])]
                  exact ⟨_, rfl⟩

/-- On a new router, `Add` panics on every pattern that holds a `*`, the well-formed
`/static/*path` included: the root's path is empty, so it does not end in `/`. -/
theorem add_panics_on_catchAll_pattern (method path : Bytes) (handler : H) (hstar : star ∈ path) :
    ∃ msg, (newRadixRouter : RadixRouter H).add method path handler = .error (.panic msg) := by
  unfold RadixRouter.add
  cases hp : path with
  | nil => simp [hp] at hstar
  | cons c rest =>
      dsimp only [List.head?]
      split
      · exact ⟨_, rfl⟩
      · obtain ⟨msg, hmsg⟩ := insertChild_star_panics method handler (addFuel Node.empty (c :: rest)) Node.empty
          (c :: rest) rfl (hp ▸ hstar) (by simp [addFuel]; omega)
        refine ⟨msg, ?_⟩
        show (Node.empty.addRoute (addFuel Node.empty (c :: rest)) method (c :: rest) handler).map
          RadixRouter.mk = _
        rw [Node.addRoute, if_pos ⟨rfl, rfl⟩, hmsg]
        rfl

theorem add_panics_on_catchAll_pattern_static :
    star ∈ lit "/static/*path" ∧
      ∃ msg, (newRadixRouter : RadixRouter Nat).add (lit "GET") (lit "/static/*path") 1 = .error (.panic msg) :=
  ⟨by decide, add_panics_on_catchAll_pattern (lit "GET") (lit "/static/*path") 1 (by decide)⟩

end CatchAll

end FastServer.Radix
