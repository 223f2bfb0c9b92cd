import Mathlib.Algebra.Group.Int
import Mathlib.Data.List.Basic

namespace FastServer

/-- Go byte slices and strings, byte by byte. -/
abbrev Bytes := List UInt8

/-- The bytes of a Go string literal (UTF-8). -/
def lit (s : String) : Bytes := s.toUTF8.data.toList

instance instDecidableEqExcept {ε α : Type} [DecidableEq ε] [DecidableEq α] : DecidableEq (Except ε α)
  | .error a, .error b => if h : a = b then isTrue (h ▸ rfl) else isFalse fun e => h (Except.error.inj e)
  | .ok a, .ok b => if h : a = b then isTrue (h ▸ rfl) else isFalse fun e => h (Except.ok.inj e)
  | .error _, .ok _ => isFalse Except.noConfusion
  | .ok _, .error _ => isFalse Except.noConfusion

@[simp] theorem except_ok_bind {ε α β : Type} (a : α) (f : α → Except ε β) :
    (Except.ok a >>= f) = f a := rfl

@[simp] theorem except_error_bind {ε α β : Type} (e : ε) (f : α → Except ε β) :
    (Except.error e >>= f) = Except.error e := rfl

theorem except_bind_eq_ok {ε α β : Type} {x : Except ε α} {g : α → Except ε β} {b : β} :
    (x >>= g) = .ok b ↔ ∃ a, x = .ok a ∧ g a = .ok b := by
  cases x <;> simp

theorem except_bind_ne_error {ε α β : Type} {x : Except ε α} {g : α → Except ε β} {e : ε}
    (hx : x ≠ .error e) (hg : ∀ a, g a ≠ .error e) : (x >>= g) ≠ .error e := by
  cases x
  exacts [by simpa using hx, hg _]

@[simp] theorem except_map_ok {ε α β : Type} (f : α → β) (a : α) :
    (Except.ok a : Except ε α).map f = Except.ok (f a) := rfl

@[simp] theorem except_map_error {ε α β : Type} (f : α → β) (e : ε) :
    (Except.error e : Except ε α).map f = Except.error e := rfl

theorem map_set_of_eq {α β : Type} (f : α → β) {l : List α} {i : Nat} {a x : α} (h : l[i]? = some a)
    (hx : f x = f a) : (l.set i x).map f = l.map f := by
  induction l generalizing i with
  | nil => cases h
  | cons b l ih =>
      cases i with
      | zero => obtain rfl := Option.some.inj (List.getElem?_cons_zero ▸ h); simp [hx]
      | succ i => simp [ih (List.getElem?_cons_succ ▸ h)]

theorem getElem?_concat_eq_some {α : Type} {l : List α} {x y : α} {i : Nat} (h : (l ++ [x])[i]? = some y) :
    l[i]? = some y ∨ i = l.length ∧ x = y := by
  by_cases hi : i < l.length
  · rw [List.getElem?_append_left hi] at h
    exact .inl h
  · rw [List.getElem?_append_right (by omega)] at h
    rcases hk : i - l.length with _ | k
    · rw [hk, List.getElem?_cons_zero] at h
      exact .inr ⟨by omega, Option.some.inj h⟩
    · rw [hk, List.getElem?_cons_succ, List.getElem?_nil] at h
      cases h

theorem getElem?_append_of_eq_some {α : Type} {l : List α} {a : α} {i : Nat} (h : l[i]? = some a) (m : List α) :
    (l ++ m)[i]? = some a := by
  rw [List.getElem?_append_left (List.getElem?_eq_some_iff.mp h).1, h]

def slash : UInt8 := 47
def colon : UInt8 := 58
def star : UInt8 := 42

/-- `strings.HasPrefix(s, pre)`. -/
def hasPrefix : Bytes → Bytes → Bool
  | _, [] => true
  | [], _ :: _ => false
  | a :: s, b :: pre => a = b && hasPrefix s pre

theorem hasPrefix_eq_true_iff (s pre : Bytes) : hasPrefix s pre = true ↔ pre <+: s := by
  induction s generalizing pre with
  | nil => cases pre <;> simp [hasPrefix]
  | cons a s ih =>
      cases pre with
      | nil => simp [hasPrefix]
      | cons b pre =>
          simp only [hasPrefix, Bool.and_eq_true, decide_eq_true_eq, ih, List.cons_prefix_cons]
          rw [eq_comm]

theorem hasPrefix_append_self (pre x : Bytes) : hasPrefix (pre ++ x) pre = true :=
  (hasPrefix_eq_true_iff _ _).mpr (List.prefix_append pre x)

theorem hasPrefix_append_of_disagree {a pre : Bytes} (h₁ : ¬ a <+: pre) (h₂ : ¬ pre <+: a) (x : Bytes) :
    hasPrefix (a ++ x) pre = false := by
  rw [Bool.eq_false_iff, ne_eq, hasPrefix_eq_true_iff]
  intro h
  rcases List.prefix_or_prefix_of_prefix h (List.prefix_append a x) with h | h
  · exact h₂ h
  · exact h₁ h

/-- A Go map, kept as an association list with one entry per key. -/
abbrev GoMap (K V : Type) := List (K × V)

namespace GoMap

variable {K V : Type} [DecidableEq K]

/-- `m[k]`, with `none` for the zero value of a missing key. -/
def get : GoMap K V → K → Option V
  | [], _ => none
  | (k', v) :: m, k => if k' = k then some v else get m k

/-- `m[k] = v`. -/
def set : GoMap K V → K → V → GoMap K V
  | [], k, v => [(k, v)]
  | (k', v') :: m, k, v => if k' = k then (k, v) :: m else (k', v') :: set m k v

@[simp] theorem get_nil (k : K) : get ([] : GoMap K V) k = none := rfl

@[simp] theorem get_set_self (m : GoMap K V) (k : K) (v : V) : get (set m k v) k = some v := by
  induction m with
  | nil => simp [set, get]
  | cons e m ih =>
      obtain ⟨k', v'⟩ := e
      by_cases h : k' = k <;> simp [set, get, h, ih]

theorem get_set_ne (m : GoMap K V) {k j : K} (v : V) (h : k ≠ j) : get (set m k v) j = get m j := by
  induction m with
  | nil => simp [set, get, h]
  | cons e m ih =>
      obtain ⟨k', v'⟩ := e
      by_cases hk : k' = k
      · subst hk; simp [set, get, h]
      · by_cases hj : k' = j
        · subst hj; simp [set, get, hk]
        · simp [set, get, hk, hj, ih]

theorem get_set (m : GoMap K V) (k : K) (v : V) : get (set m k v) = Function.update (get m) k (some v) := by
  funext j
  by_cases h : j = k
  · subst h; simp
  · rw [Function.update_noteq h, get_set_ne m v (Ne.symm h)]

@[simp] theorem set_set_self (m : GoMap K V) (k : K) (v v' : V) : set (set m k v) k v' = set m k v' := by
  induction m with
  | nil => simp [set]
  | cons e m ih =>
      obtain ⟨k', v''⟩ := e
      by_cases h : k' = k <;> simp [set, h, ih]

/-- `delete(m, k)`. -/
def delete : GoMap K V → K → GoMap K V
  | [], _ => []
  | (k', v) :: m, k => if k' = k then delete m k else (k', v) :: delete m k

@[simp] theorem get_delete_self (m : GoMap K V) (k : K) : get (delete m k) k = none := by
  induction m with
  | nil => rfl
  | cons e m ih =>
      obtain ⟨k', v⟩ := e
      by_cases h : k' = k <;> simp [delete, get, h, ih]

theorem get_delete_ne (m : GoMap K V) {k j : K} (h : k ≠ j) : get (delete m k) j = get m j := by
  induction m with
  | nil => rfl
  | cons e m ih =>
      obtain ⟨k', v⟩ := e
      by_cases hk : k' = k
      · subst hk; simp [delete, get, h, ih]
      · by_cases hj : k' = j
        · subst hj; simp [delete, get, hk]
        · simp [delete, get, hk, hj, ih]

theorem get_delete (m : GoMap K V) (k : K) : get (delete m k) = Function.update (get m) k none := by
  funext j
  by_cases h : j = k
  · subst h; simp
  · rw [Function.update_noteq h, get_delete_ne m (Ne.symm h)]

theorem get_set_eq_some {m : GoMap K V} {k j : K} {v w : V} (h : get (set m k v) j = some w) :
    j = k ∧ w = v ∨ j ≠ k ∧ get m j = some w := by
  by_cases hj : j = k
  · subst hj
    rw [get_set_self] at h
    exact .inl ⟨rfl, (Option.some.inj h).symm⟩
  · rw [get_set_ne m v (Ne.symm hj)] at h
    exact .inr ⟨hj, h⟩

/-- Setting a key to a value no key holds keeps every value held by one key only. -/
theorem set_inj {m : GoMap K V} (hinj : ∀ j j' w, get m j = some w → get m j' = some w → j = j') {k : K} {v : V}
    (hv : ∀ j, get m j ≠ some v) : ∀ j j' w, get (set m k v) j = some w → get (set m k v) j' = some w → j = j' := by
  intro j j' w hj hj'
  rcases get_set_eq_some hj with ⟨e, ew⟩ | ⟨-, hj⟩ <;> rcases get_set_eq_some hj' with ⟨e', ew'⟩ | ⟨-, hj'⟩
  · exact e.trans e'.symm
  · exact absurd (ew ▸ hj') (hv j')
  · exact absurd (ew' ▸ hj) (hv j)
  · exact hinj j j' w hj hj'

theorem get_delete_eq_some {m : GoMap K V} {k j : K} {w : V} (h : get (delete m k) j = some w) :
    j ≠ k ∧ get m j = some w := by
  by_cases hj : j = k
  · subst hj
    rw [get_delete_self] at h
    cases h
  · rw [get_delete_ne m (Ne.symm hj)] at h
    exact ⟨hj, h⟩

theorem eq_nil_of_get {m : GoMap K V} (h : ∀ k, get m k = none) : m = [] := by
  cases m with
  | nil => rfl
  | cons e m => simpa [get] using h e.1

theorem mem_of_get {m : GoMap K V} {k : K} {v : V} (h : get m k = some v) : (k, v) ∈ m := by
  induction m with
  | nil => cases h
  | cons e m ih =>
      obtain ⟨k', v'⟩ := e
      by_cases hk : k' = k
      · subst hk
        rw [get, if_pos rfl] at h
        cases h
        exact List.mem_cons_self _ _
      · rw [get, if_neg hk] at h
        exact List.mem_cons_of_mem _ (ih h)

theorem mem_set {m : GoMap K V} {k k' : K} {v v' : V} (h : (k', v') ∈ set m k v) :
    k' = k ∧ v' = v ∨ (k', v') ∈ m := by
  induction m with
  | nil => simp_all [set]
  | cons e m ih =>
      obtain ⟨j, w⟩ := e
      by_cases hj : j = k
      · rw [set, if_pos hj] at h
        rcases List.mem_cons.mp h with h | h
        · exact .inl (Prod.mk.inj h)
        · exact .inr (List.mem_cons_of_mem _ h)
      · rw [set, if_neg hj] at h
        rcases List.mem_cons.mp h with h | h
        · exact .inr (h ▸ List.mem_cons_self _ _)
        · exact (ih h).imp_right (List.mem_cons_of_mem _)

theorem keys_set (m : GoMap K V) (k : K) (v : V) :
    (set m k v).map Prod.fst = if k ∈ m.map Prod.fst then m.map Prod.fst else m.map Prod.fst ++ [k] := by
  induction m with
  | nil => rfl
  | cons e m ih =>
      obtain ⟨j, w⟩ := e
      by_cases hj : j = k
      · subst hj; simp [set]
      · by_cases hk : k ∈ m.map Prod.fst <;> simp [set, hj, ih, hk, Ne.symm hj]

theorem nodup_set {m : GoMap K V} (h : (m.map Prod.fst).Nodup) (k : K) (v : V) : ((set m k v).map Prod.fst).Nodup := by
  rw [keys_set]
  split_ifs with hk
  · exact h
  · exact List.pairwise_append.mpr ⟨h, List.pairwise_singleton _ _,
      fun a ha b hb => by rw [List.mem_singleton.mp hb]; rintro rfl; exact hk ha⟩

theorem delete_sublist (m : GoMap K V) (k : K) : List.Sublist (delete m k) m := by
  induction m with
  | nil => exact List.Sublist.slnil
  | cons e m ih =>
      rw [delete]
      split_ifs
      exacts [ih.cons _, ih.cons₂ _]

theorem nodup_delete {m : GoMap K V} (h : (m.map Prod.fst).Nodup) (k : K) : ((delete m k).map Prod.fst).Nodup :=
  h.sublist ((delete_sublist m k).map _)

theorem mem_delete {m : GoMap K V} {k k' : K} {v' : V} (h : (k', v') ∈ delete m k) : (k', v') ∈ m ∧ k' ≠ k := by
  induction m with
  | nil => cases h
  | cons e m ih =>
      obtain ⟨j, w⟩ := e
      rw [delete] at h
      split_ifs at h with hj
      · exact (ih h).imp_left (List.mem_cons_of_mem _)
      · rcases List.mem_cons.mp h with h | h
        · cases h; exact ⟨List.mem_cons_self _ _, hj⟩
        · exact (ih h).imp_left (List.mem_cons_of_mem _)

theorem mem_set_of_ne {m : GoMap K V} {k k' : K} {v v' : V} (h : (k', v') ∈ m) (hk : k' ≠ k) :
    (k', v') ∈ set m k v := by
  induction m with
  | nil => cases h
  | cons e m ih =>
      obtain ⟨j, w⟩ := e
      rw [set]
      split_ifs with hj
      · rcases List.mem_cons.mp h with h | h
        · cases h; exact absurd hj hk
        · exact List.mem_cons_of_mem _ h
      · rcases List.mem_cons.mp h with h | h
        · exact h ▸ List.mem_cons_self _ _
        · exact List.mem_cons_of_mem _ (ih h)

theorem mem_delete_of_ne {m : GoMap K V} {k k' : K} {v' : V} (h : (k', v') ∈ m) (hk : k' ≠ k) :
    (k', v') ∈ delete m k := by
  induction m with
  | nil => cases h
  | cons e m ih =>
      obtain ⟨j, w⟩ := e
      rw [delete]
      rcases List.mem_cons.mp h with h | h
      · cases h; rw [if_neg hk]; exact List.mem_cons_self _ _
      · split_ifs
        exacts [ih h, List.mem_cons_of_mem _ (ih h)]

theorem mem_set_iff_of_fresh {m : GoMap K V} {k : K} (hk : ∀ v, (k, v) ∉ m) (v : V) (e : K × V) :
    e ∈ set m k v ↔ e ∈ m ∨ e = (k, v) := by
  obtain ⟨k', v'⟩ := e
  constructor
  · intro h
    rcases mem_set h with ⟨rfl, rfl⟩ | h
    · exact .inr rfl
    · exact .inl h
  · rintro (h | h)
    · exact mem_set_of_ne h fun he => hk v' (he ▸ h)
    · cases h
      exact mem_of_get (get_set_self m k v)

end GoMap

end FastServer
