import FastServer.Basic

namespace FastServer.RouteSpec

variable {H : Type}

/-- The route parameters a match binds, in the order of the pattern. -/
abbrev Bindings := GoMap Bytes Bytes

inductive Seg
  | lit (b : UInt8)
  | param (name : Bytes)
  | catchAll (name : Bytes)
  deriving DecidableEq, Repr

/-- Reading a pattern as in §4.7: literal bytes, `:name` up to the next `/`, `*name` to the
end. The second argument is the name of the parameter being read, if any. -/
def segsFrom : Bytes → Option Bytes → List Seg
  | [], none => []
  | [], some name => [.param name]
  | c :: rest, some name =>
      if c = slash then .param name :: .lit c :: segsFrom rest none
      else segsFrom rest (some (name ++ [c]))
  | c :: rest, none =>
      if c = colon then segsFrom rest (some [])
      else if c = star then [.catchAll rest]
      else .lit c :: segsFrom rest none

def segs (pattern : Bytes) : List Seg := segsFrom pattern none

/-- Matching a request path against a pattern: literal bytes are equal, `:name` binds the
`/`-free run that follows, `*name` binds the rest of the path. -/
def matchSegs : List Seg → Bytes → Option Bindings
  | [], q => if q = [] then some [] else none
  | .lit b :: ss, c :: q => if b = c then matchSegs ss q else none
  | .lit _ :: _, [] => none
  | .param name :: ss, q =>
      (matchSegs ss (q.dropWhile (· ≠ slash))).map ((name, q.takeWhile (· ≠ slash)) :: ·)
  | .catchAll name :: _, q => some [(name, q)]

def matchPattern (pattern q : Bytes) : Option Bindings := matchSegs (segs pattern) q

/-- `s` outranks `t` when, at the first token where they differ, `s` has a static byte and
`t` a wildcard. -/
def outranks : List Seg → List Seg → Bool
  | x :: s, y :: t =>
      if x = y then outranks s t
      else match x, y with
        | .lit _, .param _ | .lit _, .catchAll _ => true
        | _, _ => false
  | _, _ => false

/-- A route table: the `(method, pattern, handler)` of every `Add`, in call order. -/
abbrev Routes (H : Type) := List (Bytes × Bytes × H)

/-- The highest-priority registered pattern (over all methods) that `q` matches. -/
def best (routes : Routes H) (q : Bytes) : Option Bytes :=
  let hits := (routes.map (·.2.1)).filter (fun p => (matchPattern p q).isSome)
  hits.find? (fun p => hits.all (fun p' => p' = p || outranks (segs p) (segs p')))

/-- The reference answer of `Find(m, q)`: the handler of the last `Add(m, p*, ·)` for the best
pattern `p*`, with the bindings of `p*`. -/
def refFind (routes : Routes H) (m q : Bytes) : Option H × Bindings :=
  match best routes q with
  | none => (none, [])
  | some p =>
      match (routes.filter (fun r => r.1 = m ∧ r.2.1 = p)).getLast? with
      | some r => (some r.2.2, (matchPattern p q).getD [])
      | none => (none, [])

/-- A pattern with no wildcard byte. -/
def NoWildcard (path : Bytes) : Prop := colon ∉ path ∧ star ∉ path

instance (path : Bytes) : Decidable (NoWildcard path) := inferInstanceAs (Decidable (_ ∧ _))

theorem noWildcard_cons {c : UInt8} {rest : Bytes} :
    NoWildcard (c :: rest) ↔ (c ≠ colon ∧ c ≠ star) ∧ NoWildcard rest := by
  simp only [NoWildcard, List.mem_cons, not_or]
  constructor
  · rintro ⟨⟨h1, h2⟩, h3, h4⟩; exact ⟨⟨Ne.symm h1, Ne.symm h3⟩, h2, h4⟩
  · rintro ⟨⟨h1, h2⟩, h3, h4⟩; exact ⟨⟨Ne.symm h1, h3⟩, Ne.symm h2, h4⟩

theorem NoWildcard.drop {path : Bytes} (h : NoWildcard path) (i : Nat) : NoWildcard (path.drop i) :=
  ⟨fun h' => h.1 (List.mem_of_mem_drop h'), fun h' => h.2 (List.mem_of_mem_drop h')⟩

/-- The tables every `Add` of which a router accepts without wildcards: each pattern starts with
`/` and has no `:` or `*`. -/
def StaticTable (routes : Routes H) : Prop := ∀ r ∈ routes, r.2.1.head? = some slash ∧ NoWildcard r.2.1

instance (routes : Routes H) : Decidable (StaticTable routes) :=
  inferInstanceAs (Decidable (∀ r ∈ routes, _))

/-- The handler of the last `Add(m, q, ·)` of the table. -/
def lastHandler (routes : Routes H) (m q : Bytes) : Option H :=
  (routes.filter (fun r => r.1 = m ∧ r.2.1 = q)).getLast?.map (·.2.2)

theorem lastHandler_append_single (routes : Routes H) (method path : Bytes) (handler : H) (m q : Bytes) :
    lastHandler (routes ++ [(method, path, handler)]) m q =
      if q = path ∧ m = method then some handler else lastHandler routes m q := by
  by_cases h : q = path ∧ m = method
  · obtain ⟨rfl, rfl⟩ := h
    simp [lastHandler]
  · have h' : ¬(method = m ∧ path = q) := fun h' => h ⟨h'.2.symm, h'.1.symm⟩
    simp [lastHandler, h, h']

theorem segsFrom_noWildcard : ∀ {p : Bytes}, NoWildcard p → segsFrom p none = p.map .lit
  | [], _ => rfl
  | _ :: _, h => by
      obtain ⟨⟨h1, h2⟩, h'⟩ := noWildcard_cons.mp h
      rw [segsFrom, if_neg h1, if_neg h2, segsFrom_noWildcard h', List.map_cons]

theorem matchSegs_map_lit : ∀ (p q : Bytes), matchSegs (p.map .lit) q = if q = p then some [] else none
  | [], _ => rfl
  | _ :: _, [] => by simp [matchSegs]
  | b :: p, c :: q => by
      by_cases h : b = c
      · subst h
        simp [matchSegs, matchSegs_map_lit p q]
      · simp [matchSegs, h, Ne.symm h]

theorem matchPattern_noWildcard {p : Bytes} (h : NoWildcard p) (q : Bytes) :
    matchPattern p q = if q = p then some [] else none := by
  rw [matchPattern, segs, segsFrom_noWildcard h, matchSegs_map_lit]

theorem best_of_noWildcard {routes : Routes H} (h : ∀ r ∈ routes, NoWildcard r.2.1) (q : Bytes) :
    best routes q = if q ∈ routes.map (·.2.1) then some q else none := by
  have hhits : (routes.map (·.2.1)).filter (fun p => (matchPattern p q).isSome) =
      (routes.map (·.2.1)).filter (· = q) := List.filter_congr fun p hp => by
    obtain ⟨r, hr, rfl⟩ := List.mem_map.mp hp
    by_cases hq : q = r.2.1 <;> simp [matchPattern_noWildcard (h r hr), hq, eq_comm]
  rw [best, hhits]
  generalize hl : (routes.map (·.2.1)).filter (· = q) = l
  have hall : ∀ p ∈ l, p = q := fun p hp => by
    rw [← hl] at hp
    simpa using (List.mem_filter.mp hp).2
  cases l with
  | nil =>
      have : q ∉ routes.map (·.2.1) := fun hq => by simpa using List.filter_eq_nil_iff.mp hl q hq
      simp [this]
  | cons x l =>
      have hx := hall x (List.mem_cons_self _ _)
      have hq : q ∈ routes.map (·.2.1) := by
        have := List.mem_filter.mp (hl ▸ List.mem_cons_self x l : x ∈ (routes.map (·.2.1)).filter (· = q))
        exact hx ▸ this.1
      subst hx
      have hrest : l.all (fun p' => p' = x || outranks (segs x) (segs p')) = true :=
        List.all_eq_true.mpr fun p hp => by simp [hall p (List.mem_cons_of_mem _ hp)]
      simp [hq, List.find?_cons, hrest]

theorem refFind_of_noWildcard {routes : Routes H} (h : ∀ r ∈ routes, NoWildcard r.2.1) (m q : Bytes) :
    refFind routes m q = (lastHandler routes m q, []) := by
  rw [refFind, best_of_noWildcard h, lastHandler]
  by_cases hq : q ∈ routes.map (·.2.1)
  · obtain ⟨r, hr, rfl⟩ := List.mem_map.mp hq
    rw [if_pos hq]
    dsimp only
    cases (routes.filter (fun x => x.1 = m ∧ x.2.1 = r.2.1)).getLast? with
    | none => rfl
    | some x => simp [matchPattern_noWildcard (h r hr)]
  · rw [if_neg hq]
    have : routes.filter (fun x => x.1 = m ∧ x.2.1 = q) = [] :=
      List.filter_eq_nil_iff.mpr fun x hx hxq => hq (by simp at hxq; exact hxq.2 ▸ List.mem_map_of_mem _ hx)
    rw [this]
    rfl

end FastServer.RouteSpec
