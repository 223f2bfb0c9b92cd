import FastServer.RadixTermination

namespace FastServer.Radix

open RouteSpec (Routes NoWildcard noWildcard_cons StaticTable lastHandler lastHandler_append_single
  refFind refFind_of_noWildcard)

variable {H : Type}

theorem findWildcardFrom_eq_none : ∀ {path : Bytes} (start : Nat), NoWildcard path → findWildcardFrom path start = none
  | [], _, _ => rfl
  | _ :: _, start, h => by
      obtain ⟨⟨h1, h2⟩, h'⟩ := noWildcard_cons.mp h
      rw [findWildcardFrom, if_neg (not_or.mpr ⟨h1, h2⟩), findWildcardFrom_eq_none (start + 1) h']

theorem insertChild_noWildcard {method : Bytes} {handler : H} {fuel : Nat} (hfuel : 0 < fuel) (n : Node H)
    {path : Bytes} (hpath : NoWildcard path) :
    insertChild method handler fuel n path = .ok ({ n with path := path }.setHandler method handler) := by
  obtain ⟨fuel, rfl⟩ := Nat.exists_eq_add_of_lt hfuel
  rw [insertChild, findWildcard, findWildcardFrom_eq_none 0 hpath]

theorem take_longestCommonPrefix : ∀ a b : Bytes,
    a.take (longestCommonPrefix a b) = b.take (longestCommonPrefix a b)
  | [], _ | _ :: _, [] => by simp [longestCommonPrefix]
  | x :: as, y :: bs => by
      by_cases h : x = y
      · subst h
        simp [longestCommonPrefix, take_longestCommonPrefix as bs]
      · simp [longestCommonPrefix, h]

theorem longestCommonPrefix_pos {a b : Bytes} (ha : a ≠ []) (h : a.head? = b.head?) :
    0 < longestCommonPrefix a b := by
  cases a with
  | nil => exact absurd rfl ha
  | cons x as =>
      cases b with
      | nil => cases h
      | cons y bs => cases h; simp [longestCommonPrefix]

/-- The trees static routes build: every node is static, `indices` names the first byte of each
child in order, and no byte names two children. -/
inductive StaticOk : Node H → Prop
  | intro {n : Node H} (static : n.nType = .static)
      (aligned : n.children.map (·.path.head?) = n.indices.map some) (nodup : n.indices.Nodup)
      (child : ∀ c ∈ n.children, StaticOk c) : StaticOk n

section Lookup

theorem StaticOk.static' {n : Node H} (h : StaticOk n) : n.nType = .static := by
  cases h; assumption

theorem StaticOk.aligned' {n : Node H} (h : StaticOk n) :
    n.children.map (·.path.head?) = n.indices.map some := by
  cases h; assumption

theorem StaticOk.nodup' {n : Node H} (h : StaticOk n) : n.indices.Nodup := by
  cases h; assumption

theorem StaticOk.child' {n : Node H} (h : StaticOk n) : ∀ c ∈ n.children, StaticOk c := by
  cases h; assumption

theorem StaticOk.length_children {n : Node H} (hn : StaticOk n) : n.children.length = n.indices.length := by
  simpa using congrArg List.length hn.aligned'

theorem StaticOk.head?_of_findIdx? {n : Node H} (hn : StaticOk n) {b : UInt8} {k : Nat}
    (hk : n.indices.findIdx? (· = b) = some k) {c : Node H} (hc : n.children[k]? = some c) :
    c.path.head? = some b := by
  obtain ⟨hlen, hb, -⟩ := List.findIdx?_eq_some_iff_getElem.mp hk
  have := congrArg (·[k]?) hn.aligned'
  simp only [List.getElem?_map, hc, List.getElem?_eq_getElem hlen, Option.map_some', Option.some.injEq] at this
  simpa [this] using hb

theorem lookupHandler_nil (n : Node H) (method : Bytes) :
    n.lookupHandler method [] = .ok (n.handlers.get method, []) := by
  unfold Node.lookupHandler
  split <;> simp_all

theorem getWildcard_static (method : Bytes) :
    ∀ (cs : List (Node H)), (∀ c ∈ cs, c.nType = .static) → ∀ path params,
      getWildcard method cs path params = .ok (none, [])
  | [], _, _, _ => by rw [getWildcard]
  | [⟨_, _, _, _, _, t, _⟩], h, _, _ => by
      have ht : t = .static := h _ (List.mem_singleton_self _)
      subst ht
      rw [getWildcard]
  | _ :: c :: cs, h, path, params => by
      rw [getWildcard]
      · exact getWildcard_static method (c :: cs) (fun d hd => h d (List.mem_cons_of_mem _ hd)) path params
      · intro _ _ _ _ _ _ _ _ h; exact List.cons_ne_nil _ _ h

theorem getIndexed_eq (method : Bytes) :
    ∀ (cs : List (Node H)) (i : Nat) (path : Bytes) (params : Params),
      getIndexed method cs i path params =
        match cs[i]? with
        | some c => getValue method c path params
        | none => .error "index out of range"
  | [], _, _, _ => by rw [getIndexed, List.getElem?_nil]
  | _ :: _, 0, _, _ => by rw [getIndexed, List.getElem?_cons_zero]
  | _ :: cs, i + 1, path, params => by
      rw [getIndexed, getIndexed_eq method cs i path params, List.getElem?_cons_succ]

theorem findIdx?_aligned (b : UInt8) :
    ∀ (cs : List (Node H)) (is : Bytes), cs.map (·.path.head?) = is.map some →
      (is.findIdx? (· = b)).bind (cs[·]?) = cs.find? (·.path.head? = some b)
  | [], [], _ => rfl
  | c :: cs, i :: is, h => by
      simp only [List.map_cons, List.cons.injEq] at h
      rw [List.findIdx?_cons, List.find?_cons, h.1]
      by_cases hb : i = b
      · simp [hb]
      · rw [if_neg (by simpa using hb), List.findIdx?_succ, ← findIdx?_aligned b cs is h.2]
        cases is.findIdx? (· = b) <;> simp [hb]
  | [], _ :: _, h | _ :: _, [], h => by simp at h

theorem getValue_static {n : Node H} (hn : StaticOk n) (method q : Bytes) :
    getValue method n q [] =
      if q = n.path then .ok (n.handlers.get method, [])
      else if n.path <+: q then
        match n.children.find? (·.path.head? = (q.drop n.path.length).head?) with
        | some c => getValue method c (q.drop n.path.length) []
        | none => .ok (none, [])
      else .ok (none, []) := by
  obtain ⟨pfx, indices, children, handlers, p, t, name⟩ := n
  rw [getValue]
  dsimp only
  by_cases hq : q = pfx
  · subst hq
    simp [lookupHandler_nil]
  by_cases hpre : pfx <+: q
  · obtain ⟨rest, rfl⟩ := hpre
    have hrest : rest ≠ [] := by rintro rfl; simp at hq
    obtain ⟨b, rest', rfl⟩ := List.exists_cons_of_ne_nil hrest
    have hlt : pfx.length < (pfx ++ b :: rest').length := by simp
    rw [if_pos ⟨hlt, List.take_left pfx _⟩, if_neg hq, if_pos (List.prefix_append _ _)]
    simp only [List.drop_left, List.headD_cons, List.head?_cons]
    have halign := findIdx?_aligned b children indices hn.aligned'
    cases hk : indices.findIdx? (· = b) with
    | none =>
        rw [hk] at halign
        rw [← halign, getWildcard_static method children (fun c hc => (hn.child' c hc).static')]
        rfl
    | some k =>
        rw [hk] at halign
        have hlen : k < children.length := hn.length_children ▸ (List.findIdx?_eq_some_iff_findIdx_eq.mp hk).1
        dsimp only
        rw [getIndexed_eq, ← halign, Option.some_bind, List.getElem?_eq_getElem hlen]
  · have hnot : ¬(pfx.length < q.length ∧ q.take pfx.length = pfx) := fun ⟨_, h⟩ =>
      hpre (h ▸ List.take_prefix _ _)
    rw [if_neg hnot, if_pos hq, if_neg hq, if_neg hpre]

theorem getValue_append_path {n n' : Node H} (hn : StaticOk n) (hn' : StaticOk n') {a : Bytes}
    (hpath : n.path = a ++ n'.path) (hchildren : n'.children = n.children) (hhandlers : n'.handlers = n.handlers)
    (method r : Bytes) : getValue method n' r [] = getValue method n (a ++ r) [] := by
  rw [getValue_static hn, getValue_static hn']
  simp only [hpath, List.append_cancel_left_eq, List.prefix_append_right_inj, List.length_append, List.drop_append,
    hchildren, hhandlers]

end Lookup

section Update

theorem StaticOk.splitEdge {n : Node H} (hn : StaticOk n) {i : Nat} (hi : i < n.path.length) (path : Bytes) :
    StaticOk (n.splitEdge i path) := by
  refine .intro rfl ?_ (List.nodup_cons.mpr ⟨List.not_mem_nil _, List.nodup_nil⟩) fun c hc => ?_
  · simp [Node.splitEdge, List.head?_drop, List.getD_eq_getElem?_getD, hi]
  · rw [List.mem_singleton.mp hc]
    exact .intro hn.static' hn.aligned' hn.nodup' hn.child'

theorem head?_eq_of_isPrefix_ne_nil {c r : Bytes} (h : c <+: r) (hc : c ≠ []) : c.head? = r.head? := by
  obtain ⟨t, rfl⟩ := h
  cases c
  exacts [absurd rfl hc, rfl]

theorem getValue_splitEdge {n : Node H} (hn : StaticOk n) {i : Nat} (hi : i < n.path.length) {path : Bytes}
    (hpath : path.take i = n.path.take i) (method q : Bytes) :
    getValue method (n.splitEdge i path) q [] = getValue method n q [] := by
  have hsplit := hn.splitEdge hi path
  have hchild : StaticOk { n with path := n.path.drop i, priority := n.priority - 1, paramName := [] } :=
    hsplit.child' _ (List.mem_singleton_self _)
  have hcne : n.path.drop i ≠ [] := by simpa using hi
  rw [getValue_static hsplit]
  simp only [Node.splitEdge, hpath, List.find?_singleton]
  by_cases hq : q = n.path.take i
  · -- the new node: no handler, and the old node's path is longer
    subst hq
    rw [if_pos rfl, getValue_static hn, if_neg (fun h => by have := congrArg List.length h; simp at this; omega),
      if_neg (fun h => by have := h.length_le; simp at this; omega)]
    rfl
  rw [if_neg hq]
  by_cases hpre : n.path.take i <+: q
  · -- below the new node: its only child is the old node past the prefix
    obtain ⟨r, rfl⟩ := hpre
    rw [if_pos (List.prefix_append _ _), List.drop_left,
      ← getValue_append_path hn hchild (List.take_append_drop i n.path).symm rfl rfl]
    by_cases hr : (n.path.drop i).head? = r.head?
    · rw [if_pos (by simpa using hr)]
      rfl
    · rw [if_neg (by simpa using hr), getValue_static hchild]
      dsimp only
      rw [if_neg (fun h => hr (by rw [h])), if_neg (fun h => hr (head?_eq_of_isPrefix_ne_nil h hcne))]
  · rw [if_neg hpre, getValue_static hn, if_neg (fun h => hpre (by rw [h]; exact List.take_prefix _ _)),
      if_neg (fun h => hpre ((List.take_prefix _ _).trans h))]

/-- What one `Add` of `handler` for `method` at `path` does to the answers of a node: that query
gets the handler, and every other query keeps its answer. -/
def AddsRoute (n n' : Node H) (path method : Bytes) (handler : H) : Prop :=
  ∀ m q, getValue m n' q [] = if q = path ∧ m = method then .ok (some handler, []) else getValue m n q []

theorem AddsRoute.of_same {n₀ n n' : Node H} {path method : Bytes} {handler : H}
    (hsame : ∀ m q, getValue m n q [] = getValue m n₀ q []) (h : AddsRoute n n' path method handler) :
    AddsRoute n₀ n' path method handler := fun m q => by rw [h m q, hsame m q]

theorem StaticOk.setHandler {n : Node H} (hn : StaticOk n) (method : Bytes) (handler : H) :
    StaticOk (n.setHandler method handler) :=
  .intro hn.static' hn.aligned' hn.nodup' hn.child'

theorem addsRoute_setHandler {n : Node H} (hn : StaticOk n) (method : Bytes) (handler : H) :
    AddsRoute n (n.setHandler method handler) n.path method handler := by
  intro m q
  rw [getValue_static (hn.setHandler method handler), getValue_static hn]
  simp only [Node.setHandler]
  by_cases hq : q = n.path
  · subst hq
    by_cases hm : m = method
    · subst hm
      simp
    · simp [hm, GoMap.get_set_ne _ _ (Ne.symm hm)]
  · simp [hq]

theorem addsRoute_addChild {n : Node H} (hn : StaticOk n) {b : UInt8} (hb : n.indices.findIdx? (· = b) = none)
    (rest method : Bytes) (handler : H) :
    StaticOk ({ n with indices := n.indices ++ [b] }.addChild
        ({ (Node.empty : Node H) with path := b :: rest }.setHandler method handler)) ∧
      AddsRoute n ({ n with indices := n.indices ++ [b] }.addChild
        ({ (Node.empty : Node H) with path := b :: rest }.setHandler method handler)) (n.path ++ b :: rest) method handler := by
  set c : Node H := { (Node.empty : Node H) with path := b :: rest }.setHandler method handler with hc
  have hcok : StaticOk c := .intro rfl rfl List.nodup_nil fun _ h => by cases h
  have hnotin : b ∉ n.indices := fun h => by
    simpa using List.findIdx?_eq_none_iff.mp hb b h
  have hfind : n.children.find? (·.path.head? = some b) = none := by
    rw [← findIdx?_aligned b _ _ hn.aligned', hb]; rfl
  have hnew : StaticOk ({ n with indices := n.indices ++ [b] }.addChild c) := by
    refine .intro hn.static' ?_ ?_ fun d hd => ?_
    · simp only [Node.addChild, List.map_append, hn.aligned']; rfl
    · exact List.pairwise_append.mpr ⟨hn.nodup', List.pairwise_singleton _ _,
        fun a ha x hx => by rw [List.mem_singleton.mp hx]; rintro rfl; exact hnotin ha⟩
    · rcases List.mem_append.mp hd with hd | hd
      · exact hn.child' d hd
      · rw [List.mem_singleton.mp hd]; exact hcok
  refine ⟨hnew, fun m q => ?_⟩
  rw [getValue_static hnew, getValue_static hn]
  simp only [Node.addChild]
  by_cases hq : q = n.path
  · rw [if_pos hq, if_pos hq, if_neg (fun h => by simp [hq] at h)]
  rw [if_neg hq, if_neg hq]
  by_cases hpre : n.path <+: q
  · obtain ⟨r, rfl⟩ := hpre
    rw [if_pos (List.prefix_append _ _), if_pos (List.prefix_append _ _)]
    simp only [List.drop_left, List.find?_append, List.append_cancel_left_eq]
    by_cases hr : r.head? = some b
    · rw [hr, hfind, Option.none_or, List.find?_singleton, if_pos (decide_eq_true (show c.path.head? = some b from rfl))]
      dsimp only
      rw [getValue_static hcok]
      simp only [c, Node.setHandler]
      by_cases hrest : r = b :: rest
      · subst hrest
        by_cases hm : m = method
        · subst hm; simp
        · simp [hm, GoMap.get_set_ne _ _ (Ne.symm hm), Node.empty]
      · rw [if_neg hrest, if_neg (fun h : r = b :: rest ∧ m = method => hrest h.1)]
        split_ifs <;> rfl
    · rw [List.find?_singleton, if_neg (by simp [c]; exact fun h => hr h.symm), Option.or_none,
        if_neg (fun h => hr (by rw [h.1]; rfl))]
  · rw [if_neg hpre, if_neg hpre, if_neg (fun h => hpre (by rw [h.1]; exact List.prefix_append _ _))]

theorem addsRoute_setChild {n : Node H} (hn : StaticOk n) {b : UInt8} {k : Nat}
    (hk : n.indices.findIdx? (· = b) = some k) {child c' : Node H} (hchild : n.children[k]? = some child)
    (hc' : StaticOk c') (hhead : c'.path.head? = child.path.head?) {path' method : Bytes} {handler : H}
    (hpath' : path'.head? = some b) (hadds : AddsRoute child c' path' method handler) (p : UInt32) :
    StaticOk { n with priority := p, children := n.children.set k c' } ∧
      AddsRoute n { n with priority := p, children := n.children.set k c' } (n.path ++ path') method handler := by
  have halign : (n.children.set k c').map (·.path.head?) = n.indices.map some := by
    rw [map_set_of_eq _ hchild hhead, hn.aligned']
  have hnew : StaticOk { n with priority := p, children := n.children.set k c' } :=
    .intro hn.static' halign hn.nodup' fun d hd => (List.mem_or_eq_of_mem_set hd).elim (hn.child' d) (· ▸ hc')
  refine ⟨hnew, fun m q => ?_⟩
  rw [getValue_static hnew, getValue_static hn]
  dsimp only
  have hne : path' ≠ [] := by rintro rfl; cases hpath'
  by_cases hq : q = n.path
  · rw [if_pos hq, if_pos hq, if_neg (fun h => hne (by simpa [hq] using h.1))]
  rw [if_neg hq, if_neg hq]
  by_cases hpre : n.path <+: q
  · obtain ⟨r, rfl⟩ := hpre
    rw [if_pos (List.prefix_append _ _), if_pos (List.prefix_append _ _)]
    simp only [List.drop_left, List.append_cancel_left_eq]
    obtain ⟨x, r', rfl⟩ := List.exists_cons_of_ne_nil (fun h : r = [] => hq (by simp [h]))
    simp only [List.head?_cons]
    rw [← findIdx?_aligned x _ _ halign, ← findIdx?_aligned x _ _ hn.aligned']
    by_cases hx : x = b
    · -- the byte of the changed child: the recursive call's answer
      subst hx
      have hklen : k < n.children.length := (List.getElem?_eq_some_iff.mp hchild).1
      rw [hk, Option.some_bind, Option.some_bind, hchild, List.getElem?_set_self hklen]
      exact hadds m (x :: r')
    · -- any other byte: the same child as before, and not the new path
      have hpath_ne : ¬(x :: r' = path' ∧ m = method) := fun h => hx (by simpa [← h.1] using hpath')
      rw [if_neg hpath_ne]
      cases hk' : n.indices.findIdx? (· = x) with
      | none => rfl
      | some k' =>
          have hkk : k' ≠ k := by
            rintro rfl
            have h1 := List.findIdx?_of_eq_some hk
            have h2 := List.findIdx?_of_eq_some hk'
            cases hv : n.indices[k']? with
            | none => simp [hv] at h1
            | some v =>
                simp only [hv, decide_eq_true_eq] at h1 h2
                exact hx (h2.symm.trans h1)
          rw [Option.some_bind, Option.some_bind, List.getElem?_set_ne (Ne.symm hkk)]
  · rw [if_neg hpre, if_neg hpre, if_neg (fun h => hpre (by rw [h.1]; exact List.prefix_append _ _))]

theorem addRouteLoop_static {method : Bytes} {handler : H} : ∀ (fuel : Nat) {n : Node H} {path : Bytes},
    StaticOk n → NoWildcard path → path.length + n.height < fuel →
      ∃ n', addRouteLoop method handler fuel n path = .ok n' ∧ StaticOk n' ∧
        (n.path ≠ [] → path.head? = n.path.head? → n'.path.head? = n.path.head?) ∧
        AddsRoute n n' path method handler
  | 0, _, _, _, _, h => absurd h (Nat.not_lt_zero _)
  | fuel + 1, n, path, hn, hpath, hfuel => by
      have hpos := height_pos n
      have htake := take_longestCommonPrefix path n.path
      rw [addRouteLoop]
      dsimp only
      by_cases hs : longestCommonPrefix path n.path < n.path.length
      · -- the edge split answers as `n`; the rest of the path is a new leaf, or ends at the split
        have hsplit := hn.splitEdge hs path
        have hsame := fun m q => getValue_splitEdge hn hs htake m q
        have hhead : n.path ≠ [] → path.head? = n.path.head? →
            (n.splitEdge (longestCommonPrefix path n.path) path).path.head? = n.path.head? := fun hne h => by
          have hne' : path ≠ [] := fun hp => hne (by simpa [hp, eq_comm] using h)
          simp only [Node.splitEdge, List.head?_take, (longestCommonPrefix_pos hne' h).ne', if_false, h]
        rw [if_pos hs]
        by_cases hlt : longestCommonPrefix path n.path < path.length
        · obtain ⟨b, rest, hdrop⟩ := List.exists_cons_of_ne_nil (by simpa using hlt :
            path.drop (longestCommonPrefix path n.path) ≠ [])
          have hb := findIdx?_splitEdge hlt hs
          rw [if_pos hlt, if_neg (fun h => by cases h), hb]
          dsimp only
          have hrest := hpath.drop (longestCommonPrefix path n.path)
          rw [hdrop] at hrest ⊢
          rw [hdrop, List.headD_cons] at hb
          obtain ⟨⟨hc, hs'⟩, -⟩ := noWildcard_cons.mp hrest
          rw [List.headD_cons, if_pos ⟨hc, hs'⟩, insertChild_noWildcard (by omega) _ hrest, except_ok_bind]
          obtain ⟨hok, hadds⟩ := addsRoute_addChild hsplit hb rest method handler
          refine ⟨_, rfl, hok, hhead, AddsRoute.of_same hsame ?_⟩
          have hp : (n.splitEdge (longestCommonPrefix path n.path) path).path ++ b :: rest = path := by
            rw [← hdrop]; exact List.take_append_drop _ _
          rwa [hp] at hadds
        · rw [if_neg hlt]
          have hi := le_antisymm (longestCommonPrefix_le_left _ _) (Nat.not_lt.mp hlt)
          refine ⟨_, rfl, hsplit.setHandler method handler, hhead, AddsRoute.of_same hsame ?_⟩
          have hp : (n.splitEdge (longestCommonPrefix path n.path) path).path = path := by
            simp only [Node.splitEdge, hi, List.take_length]
          have hadds := addsRoute_setHandler hsplit method handler
          rwa [hp] at hadds
      · -- no split: the node's path is a prefix of the pattern
        have hi := le_antisymm (longestCommonPrefix_le_right _ _) (Nat.not_lt.mp hs)
        have hpre : path.take (longestCommonPrefix path n.path) = n.path := by rw [htake, hi, List.take_length]
        rw [if_neg hs]
        by_cases hlt : longestCommonPrefix path n.path < path.length
        · obtain ⟨b, rest, hdrop⟩ := List.exists_cons_of_ne_nil (by simpa using hlt :
            path.drop (longestCommonPrefix path n.path) ≠ [])
          have hrest := hpath.drop (longestCommonPrefix path n.path)
          have hp : n.path ++ b :: rest = path := (congrArg₂ (· ++ ·) hpre hdrop).symm.trans (List.take_append_drop _ _)
          rw [if_pos hlt, if_neg (by rw [hn.static']; exact fun h => by cases h)]
          rw [hdrop] at hrest ⊢
          rw [List.headD_cons]
          cases hk : n.indices.findIdx? (· = b) with
          | some k =>
              -- descend into the child the byte names
              have hklen : k < n.children.length :=
                hn.length_children ▸ (List.findIdx?_eq_some_iff_findIdx_eq.mp hk).1
              have hchild := List.getElem?_eq_getElem hklen
              have hchead := hn.head?_of_findIdx? hk hchild
              dsimp only
              rw [List.get?_eq_getElem?, hchild]
              dsimp only
              have hmeasure : (b :: rest).length + n.children[k].height < fuel := by
                have := height_lt_of_mem (List.getElem_mem hklen)
                have : (b :: rest).length = path.length - longestCommonPrefix path n.path := by
                  rw [← hdrop, List.length_drop]
                omega
              obtain ⟨c', hc', hok, hh, hadds⟩ := addRouteLoop_static fuel (hn.child' _ (List.getElem_mem hklen))
                hrest hmeasure
              rw [hc', except_ok_bind]
              obtain ⟨hok', hadds'⟩ := addsRoute_setChild hn hk hchild hok
                (hh (fun h => by simp [h] at hchead) hchead.symm) (rfl : (b :: rest).head? = some b) hadds (n.priority + 1)
              refine ⟨_, rfl, hok', fun _ _ => rfl, ?_⟩
              rwa [hp] at hadds'
          | none =>
              -- a new leaf under a new index byte
              dsimp only
              obtain ⟨⟨hc, hs'⟩, -⟩ := noWildcard_cons.mp hrest
              rw [if_pos ⟨hc, hs'⟩, insertChild_noWildcard (by omega) _ hrest, except_ok_bind]
              obtain ⟨hok, hadds⟩ := addsRoute_addChild hn hk rest method handler
              refine ⟨_, rfl, hok, fun _ _ => rfl, ?_⟩
              rwa [hp] at hadds
        · rw [if_neg hlt]
          have hp : n.path = path := by
            rw [← hpre, le_antisymm (longestCommonPrefix_le_left _ _) (Nat.not_lt.mp hlt), List.take_length]
          have hadds := addsRoute_setHandler hn method handler
          refine ⟨_, rfl, hn.setHandler method handler, fun _ _ => rfl, ?_⟩
          rwa [hp] at hadds

end Update

section Router

theorem addRoute_static {n : Node H} (hn : StaticOk n) (hempty : ∀ m, getValue m n [] [] = .ok (none, []))
    {fuel : Nat} (method : Bytes) {path : Bytes} (handler : H) (hpath : NoWildcard path)
    (hfuel : path.length + n.height < fuel) :
    ∃ n', n.addRoute fuel method path handler = .ok n' ∧ StaticOk n' ∧ AddsRoute n n' path method handler := by
  rw [Node.addRoute]
  split_ifs with h
  · -- the empty tree: the root takes the pattern as its path, and no handler was there before
    obtain ⟨hnil, hlen⟩ := h
    have hchildren : n.children = [] := List.length_eq_zero.mp hlen
    have hnone : ∀ m, n.handlers.get m = none := fun m => by
      simpa [getValue_static hn, hnil] using hempty m
    have hn₀ : StaticOk ({ n with path := path } : Node H) := .intro hn.static' hn.aligned' hn.nodup' hn.child'
    have hsame : ∀ m q, getValue m { n with path := path } q [] = getValue m n q [] := fun m q => by
      rw [getValue_static hn₀, getValue_static hn]
      simp [hchildren, hnone]
    rw [insertChild_noWildcard (by have := height_pos n; omega) n hpath, except_ok_bind]
    have hok : StaticOk { ({ n with path := path } : Node H).setHandler method handler with nType := .static } :=
      .intro rfl hn.aligned' hn.nodup' hn.child'
    refine ⟨_, rfl, hok, fun m q => ?_⟩
    rw [getValue_append_path (hn₀.setHandler method handler) hok (List.nil_append _).symm rfl rfl m q]
    exact AddsRoute.of_same hsame (addsRoute_setHandler hn₀ method handler) m q
  · obtain ⟨n', h', hok, -, hadds⟩ := addRouteLoop_static fuel hn hpath hfuel
    exact ⟨n', h', hok, hadds⟩

theorem add_static {r : RadixRouter H} (hr : StaticOk r.root) (hempty : ∀ m, getValue m r.root [] [] = .ok (none, []))
    (method : Bytes) {path : Bytes} (handler : H) (hslash : path.head? = some slash) (hpath : NoWildcard path) :
    ∃ r', r.add method path handler = .ok r' ∧ StaticOk r'.root ∧ AddsRoute r.root r'.root path method handler := by
  rw [RadixRouter.add, hslash]
  dsimp only
  rw [if_neg (not_not.mpr rfl)]
  obtain ⟨n', h, hok, hadds⟩ := addRoute_static hr hempty method handler hpath
    (show path.length + r.root.height < addFuel r.root path by rw [addFuel]; omega)
  rw [h]
  exact ⟨⟨n'⟩, rfl, hok, hadds⟩

/-- Registering the rest of a static table on a router that answers as the routes added so far:
every `Add` succeeds and the router then answers as the whole table. -/
theorem addAll_static : ∀ (routes done : Routes H) (r : RadixRouter H), StaticTable (done ++ routes) →
    StaticOk r.root → (∀ m q, getValue m r.root q [] = .ok (lastHandler done m q, [])) →
      ∃ r', r.addAll routes = .ok r' ∧ StaticOk r'.root ∧
        ∀ m q, getValue m r'.root q [] = .ok (lastHandler (done ++ routes) m q, [])
  | [], done, r, _, hr, hans => ⟨r, rfl, hr, by simpa using hans⟩
  | (method, path, handler) :: routes, done, r, ht, hr, hans => by
      obtain ⟨hslash, hpath⟩ := ht _ (List.mem_append_right _ (List.mem_cons_self _ _))
      have hempty : ∀ m, getValue m r.root [] [] = .ok (none, []) := fun m => by
        have : done.filter (fun x => x.1 = m ∧ x.2.1 = []) = [] := List.filter_eq_nil_iff.mpr fun x hx hx' => by
          have := (ht x (List.mem_append_left _ hx)).1
          simp only [decide_eq_true_eq] at hx'
          rw [hx'.2] at this
          cases this
        rw [hans, lastHandler, this]
        rfl
      obtain ⟨r₁, h₁, hr₁, hadds⟩ := add_static hr hempty method handler hslash hpath
      have hans₁ : ∀ m q, getValue m r₁.root q [] = .ok (lastHandler (done ++ [(method, path, handler)]) m q, []) :=
        fun m q => by
          rw [hadds, lastHandler_append_single, hans]
          split_ifs <;> rfl
      obtain ⟨r', h', hr', hans'⟩ := addAll_static routes (done ++ [(method, path, handler)]) r₁ (by simpa using ht)
        hr₁ hans₁
      refine ⟨r', ?_, hr', by simpa using hans'⟩
      rw [RadixRouter.addAll, h₁, except_ok_bind, h']

/-- On a table of static routes, registering the routes one `Add` after the other succeeds, and
the router answers every method and path as the reference does: the handler of the last `Add`
for that method and path, with no params. -/
theorem find_eq_refFind_of_staticTable (routes : Routes H) (h : StaticTable routes) :
    ∃ r, newRadixRouter.addAll routes = .ok r ∧ ∀ m q, r.find m q = .ok (refFind routes m q) := by
  have hempty : StaticOk (newRadixRouter : RadixRouter H).root := .intro rfl rfl List.nodup_nil fun _ h => by cases h
  obtain ⟨r, hr, -, hans⟩ := addAll_static routes [] newRadixRouter (by simpa using h) hempty fun m q => by
    rw [getValue_static hempty]
    split_ifs <;> rfl
  refine ⟨r, hr, fun m q => ?_⟩
  rw [RadixRouter.find, hans, refFind_of_noWildcard fun x hx => (h x hx).2, List.nil_append]

theorem find_eq_refFind_of_staticTable_three :
    StaticTable [(lit "GET", lit "/a", 1), (lit "GET", lit "/ab", 2), (lit "GET", lit "/a", 3)] ∧
      ∃ r, newRadixRouter.addAll [(lit "GET", lit "/a", 1), (lit "GET", lit "/ab", 2), (lit "GET", lit "/a", 3)] = .ok r ∧
        ∀ m q, r.find m q = .ok (refFind [(lit "GET", lit "/a", 1), (lit "GET", lit "/ab", 2), (lit "GET", lit "/a", 3)] m q) :=
  ⟨by decide, find_eq_refFind_of_staticTable _ (by decide)⟩

end Router

end FastServer.Radix
