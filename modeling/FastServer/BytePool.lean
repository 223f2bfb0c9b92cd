import FastServer.Basic

namespace FastServer.Pools

/-- A `[]byte` as the pool sees it: its length and capacity; the bytes are not modelled. -/
structure Slice where
  len : Nat
  cap : Nat
  len_le_cap : len ≤ cap
  deriving DecidableEq

/-- `make([]byte, n)`. -/
def make (n : Nat) : Slice := ⟨n, n, le_rfl⟩

/-- `buf[:n]`, which panics unless `0 ≤ n ≤ cap(buf)`. -/
def Slice.reslice (buf : Slice) (n : Int) : Except String Slice :=
  if h : 0 ≤ n ∧ n ≤ buf.cap then .ok ⟨n.toNat, buf.cap, by omega⟩
  else .error "slice bounds out of range"

/-- `buf[:cap(buf)]`. -/
def Slice.full (buf : Slice) : Slice := make buf.cap

/-- A `BytePool`: the tier sizes and, for each tier, the buffers its `sync.Pool` holds. -/
structure BytePool where
  sizes : List Int
  pools : List (List Slice)

def newBytePoolWithSizes (sizes : List Int) : BytePool := ⟨sizes, sizes.map fun _ => []⟩

def defaultSizes : List Int := [512, 2048, 8192, 32768]

def newBytePool : BytePool := newBytePoolWithSizes defaultSizes

/-- The loops `for i, poolSize := range bp.sizes` of `Get` and `Put`: the first tier whose size
passes the test. -/
def firstTier (p : Int → Bool) : List Int → Option Nat
  | [] => none
  | s :: sizes => if p s then some 0 else (firstTier p sizes).map (· + 1)

/-- `make([]byte, n)` for an `int` `n`. -/
def makeInt (n : Int) : Except String Slice :=
  if n < 0 then .error "makeslice: len out of range" else .ok (make n.toNat)

/-- `Get()` of a `sync.Pool` that holds `held` and whose `New` is `make([]byte, sz)`. Which held
buffer `Get` hands out, if any, is up to the runtime: `pick` chooses it. -/
def poolGet (held : List Slice) (sz : Int) : Option Nat → Except String (Slice × List Slice)
  | some k =>
      match held[k]? with
      | some b => .ok (b, held.eraseIdx k)
      | none => (makeInt sz).map (·, held)
  | none => (makeInt sz).map (·, held)

/-- `Get(size)`. -/
def BytePool.get (bp : BytePool) (size : Int) (pick : Option Nat) : Except String (Slice × BytePool) :=
  match firstTier (fun poolSize => size ≤ poolSize) bp.sizes with
  | some i => do
      let (buf, held) ← poolGet (bp.pools.getD i []) (bp.sizes.getD i 0) pick
      let buf ← buf.reslice size
      .ok (buf, { bp with pools := bp.pools.set i held })
  | none => (makeInt size).map (·, bp)

/-- `bp.pools[i].Put(&buf)` after `buf = buf[:capacity]`. -/
def BytePool.putIn (bp : BytePool) (i : Nat) (buf : Slice) : BytePool :=
  { bp with pools := bp.pools.modify (· ++ [buf.full]) i }

/-- `Put(buf)`. -/
def BytePool.put (bp : BytePool) (buf : Slice) : BytePool :=
  match firstTier (fun poolSize => (buf.cap : Int) = poolSize) bp.sizes with
  | some i => bp.putIn i buf
  | none => bp

/-- What can happen to a pool: a `Get`, a `Put`, and the runtime dropping a held buffer. -/
inductive Op
  | get (size : Int) (pick : Option Nat)
  | put (buf : Slice)
  | evict (i k : Nat)

def BytePool.step (bp : BytePool) : Op → Except String BytePool
  | .get size pick => (bp.get size pick).map Prod.snd
  | .put buf => .ok (bp.put buf)
  | .evict i k => .ok { bp with pools := bp.pools.modify (·.eraseIdx k) i }

def BytePool.run (bp : BytePool) : List Op → Except String BytePool
  | [] => .ok bp
  | op :: ops =>
      match bp.step op with
      | .ok bp => bp.run ops
      | .error msg => .error msg

/-- Every buffer held in tier `i` has length and capacity `sizes[i]`. -/
def Tiered (bp : BytePool) : Prop :=
  bp.pools.length = bp.sizes.length ∧
    ∀ (i : Nat) (held : List Slice) (s : Int), bp.pools[i]? = some held → bp.sizes[i]? = some s →
      ∀ b ∈ held, (b.len : Int) = s ∧ (b.cap : Int) = s

/-- `s` is the smallest tier size of at least `n`. -/
def SmallestTier (sizes : List Int) (n s : Int) : Prop := s ∈ sizes ∧ n ≤ s ∧ ∀ t ∈ sizes, n ≤ t → s ≤ t

variable {p : Int → Bool} {sizes : List Int} {i : Nat}

theorem firstTier_some (h : firstTier p sizes = some i) :
    ∃ s, sizes[i]? = some s ∧ p s ∧ ∀ j < i, ∀ t, sizes[j]? = some t → p t = false := by
  induction sizes generalizing i with
  | nil => cases h
  | cons s sizes ih =>
      simp only [firstTier] at h
      split at h
      · cases h; exact ⟨s, by simp, ‹_›, fun j hj => absurd hj (Nat.not_lt_zero j)⟩
      · obtain ⟨i, hi, rfl⟩ := Option.map_eq_some'.mp h
        obtain ⟨t, ht, hpt, hbefore⟩ := ih hi
        refine ⟨t, by simpa using ht, hpt, fun j hj u hu => ?_⟩
        cases j with
        | zero => obtain rfl : s = u := by simpa using hu
                  simpa using ‹¬p s = true›
        | succ j => exact hbefore j (by omega) u (by simpa using hu)

theorem firstTier_none (h : firstTier p sizes = none) : ∀ s ∈ sizes, p s = false := by
  induction sizes with
  | nil => simp
  | cons s sizes ih =>
      simp only [firstTier] at h
      split at h
      · cases h
      · rw [Option.map_eq_none'] at h
        exact List.forall_mem_cons.mpr ⟨by simpa using ‹¬p s = true›, ih h⟩

theorem smallestTier_of_firstTier (hinc : sizes.Pairwise (· < ·)) {n s : Int}
    (h : firstTier (fun t => n ≤ t) sizes = some i) (hs : sizes[i]? = some s) : SmallestTier sizes n s := by
  obtain ⟨s', hs', hle, hbefore⟩ := firstTier_some h
  obtain rfl : s' = s := Option.some.inj (hs'.symm.trans hs)
  obtain ⟨hi, rfl⟩ := List.getElem?_eq_some_iff.mp hs
  refine ⟨List.getElem_mem hi, by simpa using hle, fun t ht hnt => ?_⟩
  obtain ⟨j, hj, rfl⟩ := List.getElem_of_mem ht
  rcases Nat.lt_trichotomy j i with hji | rfl | hij
  · have := hbefore j hji _ (List.getElem?_eq_getElem hj)
    simp at this; omega
  · exact Int.le_refl _
  · exact Int.le_of_lt (List.pairwise_iff_getElem.mp hinc i j hi hj hij)

theorem firstTier_eq_of_getElem? (hinc : sizes.Pairwise (· < ·)) {c : Int} (hc : sizes[i]? = some c) :
    firstTier (fun t => c = t) sizes = some i := by
  cases hf : firstTier (fun t => c = t) sizes with
  | none => exact absurd (firstTier_none hf c (List.getElem?_mem hc)) (by simp)
  | some j =>
      obtain ⟨t, ht, hct, -⟩ := firstTier_some hf
      obtain rfl : c = t := by simpa using hct
      obtain ⟨hj, hjt⟩ := List.getElem?_eq_some_iff.mp ht
      obtain ⟨hi, hic⟩ := List.getElem?_eq_some_iff.mp hc
      by_contra hne
      rcases Nat.lt_or_gt_of_ne (fun e => hne (congrArg some e)) with h | h
      · have := List.pairwise_iff_getElem.mp hinc j i hj hi h; omega
      · have := List.pairwise_iff_getElem.mp hinc i j hi hj h; omega

theorem tiered_new (sizes : List Int) : Tiered (newBytePoolWithSizes sizes) := by
  refine ⟨by simp [newBytePoolWithSizes], fun i held s hheld _ b hb => ?_⟩
  simp only [newBytePoolWithSizes, List.getElem?_map] at hheld
  obtain ⟨_, -, rfl⟩ := Option.map_eq_some'.mp hheld
  cases hb

section Ops

variable {bp bp' : BytePool} {size : Int} {pick : Option Nat} {b : Slice}

theorem poolGet_full {held : List Slice} {s : Int} (hs0 : 0 ≤ s)
    (hheld : ∀ b ∈ held, (b.len : Int) = s ∧ (b.cap : Int) = s) (pick : Option Nat) :
    ∃ b held', poolGet held s pick = .ok (b, held') ∧ (b.cap : Int) = s ∧ held' ⊆ held := by
  have hnew : makeInt s = .ok (make s.toNat) := if_neg (by omega)
  have hcap : ((make s.toNat).cap : Int) = s := by simp [make]; omega
  cases pick with
  | none => exact ⟨_, held, by simp [poolGet, hnew], hcap, List.Subset.refl _⟩
  | some k =>
      cases hk : held[k]? with
      | none => exact ⟨_, held, by simp [poolGet, hk, hnew], hcap, List.Subset.refl _⟩
      | some b =>
          exact ⟨b, held.eraseIdx k, by simp [poolGet, hk], (hheld b (List.getElem?_mem hk)).2,
            List.eraseIdx_subset _ _⟩

theorem tiered_set (ht : Tiered bp) {h₀ held : List Slice} (hh₀ : bp.pools[i]? = some h₀) (hsub : held ⊆ h₀) :
    Tiered { bp with pools := bp.pools.set i held } := by
  refine ⟨by simp [ht.1], fun j h s hj hs c hc => ?_⟩
  by_cases hij : i = j
  · subst hij
    have hi : i < bp.pools.length := by simpa using (List.getElem?_eq_some_iff.mp hj).1
    rw [List.getElem?_set_self hi] at hj
    cases hj
    exact ht.2 i h₀ s hh₀ hs c (hsub hc)
  · rw [List.getElem?_set_ne hij] at hj
    exact ht.2 j h s hj hs c hc

theorem get_of_firstTier (ht : Tiered bp) (hsize : 0 ≤ size)
    (hf : firstTier (fun poolSize => size ≤ poolSize) bp.sizes = some i) (pick : Option Nat) :
    ∃ s b bp', bp.sizes[i]? = some s ∧ bp.get size pick = .ok (b, bp') ∧ (b.len : Int) = size ∧
      (b.cap : Int) = s ∧ Tiered bp' ∧ bp'.sizes = bp.sizes := by
  obtain ⟨s, hs, hle, -⟩ := firstTier_some hf
  have hle : size ≤ s := by simpa using hle
  have hi : i < bp.pools.length := ht.1 ▸ (List.getElem?_eq_some_iff.mp hs).1
  obtain ⟨h₀, hh₀⟩ : ∃ h₀, bp.pools[i]? = some h₀ := ⟨_, List.getElem?_eq_getElem hi⟩
  obtain ⟨b, held, hget, hcap, hsub⟩ := poolGet_full (by omega) (ht.2 i h₀ s hh₀ hs) pick
  refine ⟨s, ⟨size.toNat, b.cap, by omega⟩, { bp with pools := bp.pools.set i held }, hs, ?_,
    by simp; omega, hcap, tiered_set ht hh₀ hsub, rfl⟩
  have hsz : bp.sizes.getD i 0 = s := by simp [hs]
  have hpool : bp.pools.getD i [] = h₀ := by simp [hh₀]
  simp only [BytePool.get, hf, hsz, hpool, hget, except_ok_bind, Slice.reslice, dif_pos (And.intro hsize (hcap ▸ hle))]

theorem get_of_firstTier_none (hsize : 0 ≤ size)
    (hf : firstTier (fun poolSize => size ≤ poolSize) bp.sizes = none) (pick : Option Nat) :
    bp.get size pick = .ok (make size.toNat, bp) := by
  simp only [BytePool.get, hf, makeInt, if_neg (Int.not_lt.mpr hsize), except_map_ok]

@[simp] theorem putIn_sizes (i : Nat) (b : Slice) : (bp.putIn i b).sizes = bp.sizes := rfl

theorem putIn_pools_getElem? (i j : Nat) (b : Slice) :
    (bp.putIn i b).pools[j]? = if i = j then bp.pools[j]?.map (· ++ [b.full]) else bp.pools[j]? := by
  by_cases hij : i = j
  · subst hij; simp [BytePool.putIn]
  · simp [BytePool.putIn, hij]

theorem tiered_putIn (ht : Tiered bp) (b : Slice) {s : Int} (hs : bp.sizes[i]? = some s)
    (hcap : (b.cap : Int) = s) : Tiered (bp.putIn i b) := by
  refine ⟨by simp [BytePool.putIn, ht.1], fun j h t hj ht' c hc => ?_⟩
  rw [putIn_pools_getElem?] at hj
  split_ifs at hj with hij
  · subst hij
    obtain ⟨h₀, hh₀, rfl⟩ := Option.map_eq_some'.mp hj
    obtain rfl : s = t := Option.some.inj (hs.symm.trans ht')
    rcases List.mem_append.mp hc with hc | hc
    · exact ht.2 i h₀ s hh₀ hs c hc
    · rw [List.mem_singleton.mp hc]; simp [Slice.full, make, hcap]
  · exact ht.2 j h t hj ht' c hc

theorem tiered_put (ht : Tiered bp) (b : Slice) : Tiered (bp.put b) := by
  unfold BytePool.put
  split
  · obtain ⟨s, hs, hcap, -⟩ := firstTier_some ‹_›
    exact tiered_putIn ht b hs (by simpa using hcap)
  · exact ht

theorem tiered_evict (ht : Tiered bp) (i k : Nat) :
    Tiered { bp with pools := bp.pools.modify (·.eraseIdx k) i } := by
  refine ⟨by simp [ht.1], fun j h t hj ht' c hc => ?_⟩
  by_cases hij : i = j
  · subst hij
    obtain ⟨h₀, hh₀, rfl⟩ : ∃ h₀, bp.pools[i]? = some h₀ ∧ h₀.eraseIdx k = h := by simpa using hj
    exact ht.2 i h₀ t hh₀ ht' c (List.mem_of_mem_eraseIdx hc)
  · rw [List.getElem?_modify_ne _ _ hij] at hj
    exact ht.2 j h t hj ht' c hc

theorem poolGet_subset {held held' : List Slice} {sz : Int} (h : poolGet held sz pick = .ok (b, held')) :
    held' ⊆ held := by
  cases pick with
  | none => cases hm : makeInt sz <;> simp [poolGet, hm] at h; exact h.2 ▸ List.Subset.refl _
  | some k =>
      cases hk : held[k]? <;> cases hm : makeInt sz <;> simp [poolGet, hk, hm] at h
      · exact h.2 ▸ List.Subset.refl _
      · exact h.2 ▸ List.eraseIdx_subset _ _
      · exact h.2 ▸ List.eraseIdx_subset _ _

theorem get_ok (h : bp.get size pick = .ok (b, bp')) :
    bp' = bp ∨ ∃ i held, held ⊆ bp.pools.getD i [] ∧ bp' = { bp with pools := bp.pools.set i held } := by
  unfold BytePool.get at h
  split at h
  · rename_i i _
    cases hp : poolGet (bp.pools.getD i []) (bp.sizes.getD i 0) pick with
    | error msg => rw [hp] at h; cases h
    | ok r =>
        obtain ⟨buf, held⟩ := r
        rw [hp, except_ok_bind] at h
        dsimp only at h
        cases hr : buf.reslice size with
        | error msg => rw [hr] at h; cases h
        | ok buf' =>
            rw [hr, except_ok_bind] at h
            cases h
            exact .inr ⟨i, held, poolGet_subset hp, rfl⟩
  · cases hm : makeInt size <;> simp [hm] at h
    exact .inl h.2.symm

theorem step_tiered (ht : Tiered bp) {op : Op} (h : bp.step op = .ok bp') : Tiered bp' ∧ bp'.sizes = bp.sizes := by
  cases op with
  | get size pick =>
      simp only [BytePool.step] at h
      cases hg : bp.get size pick with
      | error msg => rw [hg] at h; cases h
      | ok r =>
          rw [hg] at h; cases h
          rcases get_ok hg with h | ⟨i, held, hsub, h⟩ <;> rw [h]
          · exact ⟨ht, rfl⟩
          · by_cases hi : i < bp.pools.length
            · exact ⟨tiered_set ht (List.getElem?_eq_getElem hi) (by simpa [hi] using hsub), rfl⟩
            · rw [List.set_eq_of_length_le (by omega)]; exact ⟨ht, rfl⟩
  | put b => cases h; exact ⟨tiered_put ht b, by unfold BytePool.put; split <;> rfl⟩
  | evict i k => cases h; exact ⟨tiered_evict ht i k, rfl⟩

theorem run_tiered {ops : List Op} (ht : Tiered bp) (h : bp.run ops = .ok bp') :
    Tiered bp' ∧ bp'.sizes = bp.sizes := by
  induction ops generalizing bp with
  | nil => cases h; exact ⟨ht, rfl⟩
  | cons op ops ih =>
      simp only [BytePool.run] at h
      split at h
      · rename_i bp₁ h₁
        obtain ⟨ht₁, hs₁⟩ := step_tiered ht h₁
        obtain ⟨ht', hs'⟩ := ih ht₁ h
        exact ⟨ht', hs'.trans hs₁⟩
      · cases h

theorem putIn_pools_ne_self (ht : Tiered bp) (hi : i < bp.sizes.length) (buf : Slice) :
    ∃ h₀, bp.pools[i]? = some h₀ ∧ (bp.putIn i buf).pools[i]? = some (h₀ ++ [buf.full]) := by
  obtain ⟨h₀, hh₀⟩ : ∃ h₀, bp.pools[i]? = some h₀ := ⟨_, List.getElem?_eq_getElem (ht.1 ▸ hi)⟩
  exact ⟨h₀, hh₀, by rw [putIn_pools_getElem?, if_pos rfl, hh₀]; rfl⟩

theorem put_eq_putIn_iff (ht : Tiered bp) (hinc : bp.sizes.Pairwise (· < ·)) (hi : i < bp.sizes.length)
    (buf : Slice) : bp.put buf = bp.putIn i buf ↔ bp.sizes[i]? = some (buf.cap : Int) := by
  constructor
  · intro h
    obtain ⟨h₀, hh₀, hpi⟩ := putIn_pools_ne_self ht hi buf
    have hne : some h₀ ≠ some (h₀ ++ [buf.full]) := fun e => by
      simpa using congrArg List.length (Option.some.inj e)
    unfold BytePool.put at h
    split at h
    · rename_i j hj
      obtain ⟨s, hs, hcs, -⟩ := firstTier_some hj
      by_cases hji : j = i
      · subst hji
        rw [hs, of_decide_eq_true hcs]
      · have := congrArg (fun bp => bp.pools[i]?) h
        simp only [putIn_pools_getElem?, if_neg hji, hh₀, if_pos] at this
        exact absurd this hne
    · have := congrArg (fun bp => bp.pools[i]?) h
      simp only [hpi, hh₀] at this
      exact absurd this hne
  · intro h
    simp only [BytePool.put, firstTier_eq_of_getElem? hinc h]

end Ops

/-- For strictly increasing tier sizes and every sequence of `Get`s, `Put`s and evictions from
`NewBytePoolWithSizes(sizes)`: every held buffer has length and capacity of its tier; `Get(n)` for
`0 ≤ n` up to the largest tier gives length `n` on the smallest tier of at least `n`, and above
every tier a new slice of length `n`; `Put(b)` stores `b` in tier `i` exactly when
`cap(b) = sizes[i]` and drops it when no tier has its capacity. -/
theorem bytePool_keeps_tiers (sizes : List Int) (hinc : sizes.Pairwise (· < ·)) (ops : List Op) (bp : BytePool)
    (hrun : (newBytePoolWithSizes sizes).run ops = .ok bp) :
    Tiered bp ∧
    (∀ (n : Int) (pick : Option Nat), 0 ≤ n → (∃ s ∈ sizes, n ≤ s) →
      ∃ b bp', bp.get n pick = .ok (b, bp') ∧ (b.len : Int) = n ∧ SmallestTier sizes n b.cap ∧ Tiered bp') ∧
    (∀ (n : Int) (pick : Option Nat), 0 ≤ n → (∀ s ∈ sizes, s < n) → bp.get n pick = .ok (make n.toNat, bp)) ∧
    (∀ (buf : Slice) (i : Nat), i < sizes.length → (bp.put buf = bp.putIn i buf ↔ sizes[i]? = some (buf.cap : Int))) ∧
    (∀ buf : Slice, (∀ s ∈ sizes, s ≠ buf.cap) → bp.put buf = bp) := by
  obtain ⟨ht, hsizes⟩ := run_tiered (tiered_new sizes) hrun
  simp only [newBytePoolWithSizes] at hsizes
  subst hsizes
  refine ⟨ht, fun n pick hn ⟨s, hs, hns⟩ => ?_, fun n pick hn hlt => ?_, fun buf i hi => put_eq_putIn_iff ht hinc hi buf,
    fun buf hbuf => ?_⟩
  · cases hf : firstTier (fun t => n ≤ t) bp.sizes with
    | none => exact absurd (firstTier_none hf s hs) (by simpa using hns)
    | some i =>
        obtain ⟨t, b, bp', ht', hget, hlen, hcap, htb, -⟩ := get_of_firstTier ht hn hf pick
        exact ⟨b, bp', hget, hlen, hcap ▸ smallestTier_of_firstTier hinc hf ht', htb⟩
  · cases hf : firstTier (fun t => n ≤ t) bp.sizes with
    | none => exact get_of_firstTier_none hn hf pick
    | some i =>
        obtain ⟨t, ht', hnt, -⟩ := firstTier_some hf
        exact absurd (hlt t (List.getElem?_mem ht')) (Int.not_lt.mpr (by simpa using hnt))
  · unfold BytePool.put
    split
    · obtain ⟨s, hs, hcs, -⟩ := firstTier_some ‹_›
      exact absurd (of_decide_eq_true hcs).symm (hbuf s (List.getElem?_mem hs))
    · rfl

/-- The default tiers, after a `Get(100)` and the `Put` of a 512-byte buffer. -/
theorem bytePool_keeps_tiers_default :
    defaultSizes.Pairwise (· < ·) ∧
    newBytePool.run [.get 100 none, .put (make 512)] = .ok ⟨defaultSizes, [[make 512], [], [], []]⟩ ∧
    Tiered ⟨defaultSizes, [[make 512], [], [], []]⟩ ∧
    (∀ (n : Int) (pick : Option Nat), 0 ≤ n → (∃ s ∈ defaultSizes, n ≤ s) →
      ∃ b bp', (⟨defaultSizes, [[make 512], [], [], []]⟩ : BytePool).get n pick = .ok (b, bp') ∧
        (b.len : Int) = n ∧ SmallestTier defaultSizes n b.cap ∧ Tiered bp') ∧
    (∀ (n : Int) (pick : Option Nat), 0 ≤ n → (∀ s ∈ defaultSizes, s < n) →
      (⟨defaultSizes, [[make 512], [], [], []]⟩ : BytePool).get n pick =
        .ok (make n.toNat, ⟨defaultSizes, [[make 512], [], [], []]⟩)) ∧
    (∀ (buf : Slice) (i : Nat), i < defaultSizes.length →
      ((⟨defaultSizes, [[make 512], [], [], []]⟩ : BytePool).put buf =
          (⟨defaultSizes, [[make 512], [], [], []]⟩ : BytePool).putIn i buf ↔
        defaultSizes[i]? = some (buf.cap : Int))) ∧
    (∀ buf : Slice, (∀ s ∈ defaultSizes, s ≠ buf.cap) →
      (⟨defaultSizes, [[make 512], [], [], []]⟩ : BytePool).put buf = ⟨defaultSizes, [[make 512], [], [], []]⟩) :=
  ⟨by decide, rfl, bytePool_keeps_tiers defaultSizes (by decide) [.get 100 none, .put (make 512)] _ rfl⟩

end FastServer.Pools
