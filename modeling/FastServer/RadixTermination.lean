import FastServer.Radix

namespace FastServer.Radix

variable {H : Type}

/-- Every param node of the tree has a non-empty path. -/
inductive ParamOk : Node H → Prop
  | intro {n : Node H} (param_path : n.nType = .param → n.path ≠ []) (child : ∀ c ∈ n.children, ParamOk c) :
      ParamOk n

/-- The routers `Add` reaches from `NewRadixRouter()` by calls that return. -/
inductive Reachable : RadixRouter H → Prop
  | new : Reachable newRadixRouter
  | add {r r' : RadixRouter H} (method path : Bytes) (handler : H) :
      Reachable r → r.add method path handler = .ok r' → Reachable r'

section Height

theorem height_eq (n : Node H) : n.height = heightList n.children + 1 := by
  cases n; rfl

theorem height_le_heightList {c : Node H} : ∀ {cs : List (Node H)}, c ∈ cs → c.height ≤ heightList cs
  | d :: cs, h => by
      rw [heightList]
      rcases List.mem_cons.mp h with rfl | h
      · exact Nat.le_max_left _ _
      · exact Nat.le_trans (height_le_heightList h) (Nat.le_max_right _ _)

theorem height_lt_of_mem {n c : Node H} (h : c ∈ n.children) : c.height < n.height := by
  rw [height_eq n]; exact Nat.lt_succ_of_le (height_le_heightList h)

theorem height_pos (n : Node H) : 0 < n.height := by
  rw [height_eq]; omega

end Height

section Prefix

theorem longestCommonPrefix_le_left : ∀ a b : Bytes, longestCommonPrefix a b ≤ a.length
  | a :: as, b :: bs => by
      rw [longestCommonPrefix]
      split_ifs
      · exact Nat.succ_le_succ (longestCommonPrefix_le_left as bs)
      · exact Nat.zero_le _
  | [], _ | _ :: _, [] => Nat.zero_le _

theorem longestCommonPrefix_le_right : ∀ a b : Bytes, longestCommonPrefix a b ≤ b.length
  | a :: as, b :: bs => by
      rw [longestCommonPrefix]
      split_ifs
      · exact Nat.succ_le_succ (longestCommonPrefix_le_right as bs)
      · exact Nat.zero_le _
  | [], _ | _ :: _, [] => Nat.zero_le _

theorem headD_drop_longestCommonPrefix : ∀ a b : Bytes, longestCommonPrefix a b < a.length →
    longestCommonPrefix a b < b.length → (a.drop (longestCommonPrefix a b)).headD 0 ≠ b.getD (longestCommonPrefix a b) 0
  | x :: as, y :: bs, ha, hb => by
      rw [longestCommonPrefix] at *
      split_ifs at * with hxy
      · exact headD_drop_longestCommonPrefix as bs (by simpa using ha) (by simpa using hb)
      · simpa using hxy
  | [], _, ha, _ => by simp at ha
  | _ :: _, [], _, hb => by simp at hb

end Prefix

section Invariant

theorem ParamOk.param_path' {n : Node H} (h : ParamOk n) : n.nType = .param → n.path ≠ [] := by
  cases h; assumption

theorem ParamOk.child' {n : Node H} (h : ParamOk n) : ∀ c ∈ n.children, ParamOk c := by
  cases h; assumption

theorem paramOk_empty : ParamOk (Node.empty : Node H) :=
  .intro (fun h => by cases h) (fun _ h => by cases h)

theorem ParamOk.addChild {n c : Node H} (hn : ParamOk n) (hc : ParamOk c) : ParamOk (n.addChild c) :=
  .intro hn.param_path' fun x hx => (List.mem_append.mp hx).elim (hn.child' x) fun h => by
    rw [List.mem_singleton.mp h]; exact hc

theorem ParamOk.setHandler {n : Node H} (hn : ParamOk n) (method : Bytes) (handler : H) :
    ParamOk (n.setHandler method handler) :=
  .intro hn.param_path' hn.child'

theorem ParamOk.splitEdge {n : Node H} (hn : ParamOk n) {i : Nat} (hi : i < n.path.length) (path : Bytes) :
    ParamOk (n.splitEdge i path) := by
  refine .intro (fun h => by cases h) fun c hc => ?_
  rw [List.mem_singleton.mp hc]
  exact .intro (fun h => by simp [hi]) hn.child'

theorem ParamOk.of_ne_param {n : Node H} (ht : n.nType ≠ .param) (hc : ∀ c ∈ n.children, ParamOk c) :
    ParamOk n :=
  .intro (fun h => absurd h ht) hc

theorem ParamOk.splitEdge_of_lt {n : Node H} (hn : ParamOk n) (i : Nat) (path : Bytes) :
    ParamOk (if i < n.path.length then n.splitEdge i path else n) := by
  split_ifs with h
  exacts [hn.splitEdge h path, hn]

/-- What a call of `insertChild` on a non-param node ends in: a node that keeps the invariant
and the node's kind, a panic, or, only on a budget no larger than the path, running out. -/
def InsertResult (n : Node H) (fuel : Nat) (path : Bytes) : Except AddError (Node H) → Prop
  | .ok r => ParamOk r ∧ r.nType = n.nType
  | .error e => e = .outOfFuel → fuel ≤ path.length

theorem insertChild_result (method : Bytes) (handler : H) : ∀ (fuel : Nat) (n : Node H) (path : Bytes),
    ParamOk n → n.nType ≠ .param → InsertResult n fuel path (insertChild method handler fuel n path)
  | 0, _, _, _, _ => fun _ => Nat.zero_le _
  | fuel + 1, n, path, hn, ht => by
      rw [insertChild]
      split
      · exact ⟨.of_ne_param ht hn.child', rfl⟩
      rename_i wildcard i valid _
      by_cases h1 : (!valid) = true
      · rw [if_pos h1]; exact fun h => by cases h
      rw [if_neg h1]
      by_cases h2 : wildcard.length < 2
      · rw [if_pos h2]; exact fun h => by cases h
      rw [if_neg h2]
      have hn' : ∀ p, ParamOk { n with path := p } := fun _ => .of_ne_param ht hn.child'
      by_cases h3 : wildcard.head? = some colon
      · -- the param child, and below it what follows the wildcard
        rw [if_pos h3]
        have hhead : ParamOk (if 0 < i then { n with path := path.take i } else n) ∧
            (if 0 < i then { n with path := path.take i } else n).nType = n.nType := by
          split_ifs
          exacts [⟨hn' _, rfl⟩, ⟨hn, rfl⟩]
        have hrest : (if 0 < i then path.drop i else path).length ≤ path.length := by
          split_ifs <;> simp
        have hchild : ParamOk ({ (Node.empty : Node H) with
            nType := .param, path := wildcard, paramName := wildcard.drop 1, priority := 1 }) :=
          .intro (fun _ e => h2 (by rw [show wildcard = [] from e]; decide)) fun _ h => by cases h
        dsimp only
        generalize (if 0 < i then { n with path := path.take i } else n) = n' at hhead ⊢
        generalize (if 0 < i then path.drop i else path) = p at hrest ⊢
        split
        · have hgrand := insertChild_result method handler fuel { (Node.empty : Node H) with priority := 1 }
            (p.drop wildcard.length) (.of_ne_param (fun h => by cases h) fun _ h => by cases h) fun h => by cases h
          revert hgrand
          cases insertChild method handler fuel { (Node.empty : Node H) with priority := 1 } (p.drop wildcard.length)
          · exact fun hg he => by have := hg he; simp only [List.length_drop] at this; omega
          · exact fun hg => ⟨hhead.1.addChild (hchild.addChild hg.1), hhead.2⟩
        · exact ⟨hhead.1.addChild (hchild.setHandler method handler), hhead.2⟩
      rw [if_neg h3]
      by_cases h5 : i + wildcard.length ≠ path.length
      · rw [if_pos h5]; exact fun h => by cases h
      rw [if_neg h5]
      split
      · exact ⟨(hn' _).addChild (.of_ne_param (fun h => by cases h) fun _ h => by cases h), rfl⟩
      · exact fun h => by cases h

theorem insertChild_paramOk {method : Bytes} {handler : H} {fuel : Nat} {n r : Node H} {path : Bytes}
    (h : insertChild method handler fuel n path = .ok r) (hn : ParamOk n) (ht : n.nType ≠ .param) :
    ParamOk r ∧ r.nType = n.nType := by
  simpa only [h, InsertResult] using insertChild_result method handler fuel n path hn ht

theorem insertChild_ne_outOfFuel {method : Bytes} {handler : H} {fuel : Nat} {n : Node H} {path : Bytes}
    (hn : ParamOk n) (ht : n.nType ≠ .param) (hfuel : path.length < fuel) :
    insertChild method handler fuel n path ≠ .error .outOfFuel := fun h => by
  have := insertChild_result method handler fuel n path hn ht
  rw [h] at this
  exact absurd (this rfl) (by omega)

theorem addRouteLoop_paramOk {method : Bytes} {handler : H} : ∀ {fuel : Nat} {n r : Node H} {path : Bytes},
    addRouteLoop method handler fuel n path = .ok r → ParamOk n →
      ParamOk r ∧ (n.nType ≠ .param → r.nType ≠ .param)
  | 0, _, _, _, h, _ => by simp [addRouteLoop] at h
  | fuel + 1, n, r, path, h, hn => by
      rw [addRouteLoop] at h
      generalize hi : longestCommonPrefix path n.path = i at h
      have hs := hn.splitEdge_of_lt i path
      generalize hs' : (if i < n.path.length then n.splitEdge i path else n) = n' at h hs
      have hty : n.nType ≠ .param → n'.nType ≠ .param := by
        rw [← hs']; split_ifs
        exacts [fun _ h => (by cases h), id]
      dsimp only at h
      split at h
      · split at h
        · exact ⟨(addRouteLoop_paramOk h (.intro hs.param_path' hs.child')).1, fun h' => absurd ‹_› (hty h')⟩
        · split at h
          · split at h
            · cases h
            · rename_i child hchild
              obtain ⟨c', hc', h⟩ := except_bind_eq_ok.mp h
              cases h
              have hc := (addRouteLoop_paramOk hc' (hs.child' child (List.get?_mem hchild))).1
              exact ⟨.intro hs.param_path' fun x hx => (List.mem_or_eq_of_mem_set hx).elim (hs.child' x)
                fun e => e ▸ hc, hty⟩
          · split_ifs at h
            · obtain ⟨c', hc', h⟩ := except_bind_eq_ok.mp h
              cases h
              exact ⟨ParamOk.addChild (.intro hs.param_path' hs.child')
                (insertChild_paramOk hc' paramOk_empty fun h => by cases h).1, hty⟩
            · have hr := insertChild_paramOk h hs ‹_›
              exact ⟨hr.1, hr.2 ▸ hty⟩
      · cases h
        exact ⟨hs.setHandler method handler, hty⟩

end Invariant

section Fuel

theorem findIdx?_splitEdge {n : Node H} {path : Bytes} (hi : longestCommonPrefix path n.path < path.length)
    (hn : longestCommonPrefix path n.path < n.path.length) :
    (n.splitEdge (longestCommonPrefix path n.path) path).indices.findIdx?
      (· = (path.drop (longestCommonPrefix path n.path)).headD 0) = none := by
  have hne := Ne.symm (headD_drop_longestCommonPrefix path n.path hi hn)
  simp only [Node.splitEdge, List.findIdx?_cons, List.findIdx?_nil, hne, decide_False]
  rfl

theorem addRouteLoop_ne_outOfFuel {method : Bytes} {handler : H} : ∀ {fuel : Nat} {n : Node H} {path : Bytes},
    ParamOk n → path.length + n.height < fuel → addRouteLoop method handler fuel n path ≠ .error .outOfFuel
  | 0, _, _, _, h, _ => absurd h (Nat.not_lt_zero _)
  | fuel + 1, n, path, hn, hfuel, h => by
      have hpos := height_pos n
      rw [addRouteLoop] at h
      dsimp only at h
      by_cases hsplit : longestCommonPrefix path n.path < n.path.length
      · -- the edge split: the new path gets a fresh child, or the split node takes its wildcard
        rw [if_pos hsplit] at h
        split at h
        · rename_i hlt
          rw [if_neg (fun h => by cases h), findIdx?_splitEdge hlt hsplit] at h
          dsimp only at h
          have hlen : (path.drop (longestCommonPrefix path n.path)).length < fuel := by
            simp only [List.length_drop]; omega
          split_ifs at h
          · exact except_bind_ne_error (insertChild_ne_outOfFuel paramOk_empty (fun h => by cases h) hlen)
              (fun _ => by simp) h
          · exact insertChild_ne_outOfFuel (hn.splitEdge hsplit path) (fun h => by cases h) hlen h
        · cases h
      · -- no split: the node's whole path is a prefix of the new one
        rw [if_neg hsplit] at h
        have hi : longestCommonPrefix path n.path = n.path.length :=
          Nat.le_antisymm (longestCommonPrefix_le_right _ _) (Nat.not_lt.mp hsplit)
        split at h
        · have hlen : (path.drop (longestCommonPrefix path n.path)).length < fuel := by
            simp only [List.length_drop]; omega
          split at h
          · rename_i hparam
            have hpath := List.length_pos.mpr (hn.param_path' hparam)
            refine addRouteLoop_ne_outOfFuel ?_ ?_ h
            · exact .intro hn.param_path' hn.child'
            rw [height_eq]
            rw [height_eq] at hfuel
            simp only [List.length_drop, hi]
            omega
          · rename_i hparam
            split at h
            · split at h
              · cases h
              · rename_i child hchild
                have hc := height_lt_of_mem (List.get?_mem hchild)
                exact except_bind_ne_error (addRouteLoop_ne_outOfFuel (hn.child' _ (List.get?_mem hchild))
                  (by simp only [List.length_drop]; omega)) (fun _ => by simp) h
            · split_ifs at h
              · exact except_bind_ne_error (insertChild_ne_outOfFuel paramOk_empty (fun h => by cases h) hlen)
                  (fun _ => by simp) h
              · exact insertChild_ne_outOfFuel hn hparam hlen h
        · cases h

theorem addRoute_ne_outOfFuel {n : Node H} (hn : ParamOk n) (ht : n.nType ≠ .param) (method path : Bytes)
    (handler : H) : n.addRoute (addFuel n path) method path handler ≠ .error .outOfFuel := by
  have hpos := height_pos n
  rw [Node.addRoute]
  split_ifs
  · exact except_bind_ne_error (insertChild_ne_outOfFuel hn ht (by rw [addFuel]; omega)) fun _ => by simp
  · exact addRouteLoop_ne_outOfFuel hn (by rw [addFuel]; omega)

end Fuel

section Router

/-- What every reachable router keeps: param nodes have paths, and the root is not one. -/
structure RootOk (r : RadixRouter H) : Prop where
  paramOk : ParamOk r.root
  not_param : r.root.nType ≠ .param

theorem rootOk_new : RootOk (newRadixRouter : RadixRouter H) :=
  ⟨paramOk_empty, fun h => by cases h⟩

theorem addRoute_paramOk {n r : Node H} {fuel : Nat} {method path : Bytes} {handler : H}
    (h : n.addRoute fuel method path handler = .ok r) (hn : ParamOk n) (ht : n.nType ≠ .param) :
    ParamOk r ∧ r.nType ≠ .param := by
  rw [Node.addRoute] at h
  split_ifs at h
  · obtain ⟨c, hc, h⟩ := except_bind_eq_ok.mp h
    cases h
    exact ⟨.of_ne_param (fun h => by cases h) (insertChild_paramOk hc hn ht).1.child', fun h => by cases h⟩
  · have hr := addRouteLoop_paramOk h hn
    exact ⟨hr.1, hr.2 ht⟩

theorem RootOk.add {r r' : RadixRouter H} {method path : Bytes} {handler : H} (hr : RootOk r)
    (h : r.add method path handler = .ok r') : RootOk r' := by
  rw [RadixRouter.add] at h
  split at h
  · cases h
  · split_ifs at h
    cases hroot : r.root.addRoute (addFuel r.root path) method path handler with
    | error e => simp [hroot] at h
    | ok root =>
        simp only [hroot, except_map_ok, Except.ok.injEq] at h
        subst h
        obtain ⟨hp, ht⟩ := addRoute_paramOk hroot hr.paramOk hr.not_param
        exact ⟨hp, ht⟩

theorem Reachable.rootOk {r : RadixRouter H} (h : Reachable r) : RootOk r := by
  induction h with
  | new => exact rootOk_new
  | add _ _ _ _ hadd ih => exact ih.add hadd

/-- On every router that a run of successful `Add`s reaches, a further `Add` of any pattern
returns or panics, and never needs more iterations than the budget `addFuel`. -/
theorem add_ne_outOfFuel (r : RadixRouter H) (hr : Reachable r) (method path : Bytes) (handler : H) :
    r.add method path handler ≠ .error .outOfFuel := by
  rw [RadixRouter.add]
  split
  · simp
  · split_ifs
    · simp
    · intro h
      cases hroot : r.root.addRoute (addFuel r.root path) method path handler with
      | error e =>
          simp only [hroot, except_map_error, Except.error.injEq] at h
          exact addRoute_ne_outOfFuel hr.rootOk.paramOk hr.rootOk.not_param method path handler (h ▸ hroot)
      | ok root => simp [hroot] at h

theorem add_ne_outOfFuel_new :
    Reachable (newRadixRouter : RadixRouter Nat) ∧
      (newRadixRouter : RadixRouter Nat).add (lit "GET") (lit "/user/:id") 1 ≠ .error .outOfFuel :=
  ⟨.new, add_ne_outOfFuel _ .new _ _ _⟩

end Router

end FastServer.Radix
