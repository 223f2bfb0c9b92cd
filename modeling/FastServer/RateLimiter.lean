import FastServer.Middleware

namespace FastServer.RateLimiter

open Context Middleware

/-- `time.Second`, in nanoseconds. -/
def second : Int := 1000000000

/-- The variables the closure of `RateLimiter` captures; times are in nanoseconds. -/
structure Limiter where
  tokens : Int
  lastRefill : Int
  deriving DecidableEq, Repr

/-- `RateLimiter(requestsPerSecond)` called at time `now`. -/
def rateLimiter (requestsPerSecond now : Int) : Limiter := ⟨requestsPerSecond, now⟩

/-- The refill of the handler at time `now`: a full bucket when more than a second has passed
since the last refill. -/
def Limiter.refill (requestsPerSecond : Int) (l : Limiter) (now : Int) : Limiter :=
  if now - l.lastRefill > second then ⟨requestsPerSecond, now⟩ else l

/-- A token, if any, admits the request. -/
def Limiter.take (l : Limiter) : Limiter × Bool :=
  if l.tokens > 0 then (⟨l.tokens - 1, l.lastRefill⟩, true) else (l, false)

/-- One call of the handler at time `now`, under `mu`. -/
def Limiter.allow (requestsPerSecond : Int) (l : Limiter) (now : Int) : Limiter × Bool :=
  (l.refill requestsPerSecond now).take

/-- The 429 response of a request the limiter refuses. -/
def tooManyRequests (marshal : Value → Option Bytes) (e : Exchange) : Exchange :=
  { e with ctx := e.ctx.abort.status 429 }.json marshal 429
    (.object [(lit "error", .str (lit "Too Many Requests"))])

/-- The handler: an admitted request is left alone, a refused one is aborted with a 429. -/
def Limiter.handle (marshal : Value → Option Bytes) (requestsPerSecond : Int) (l : Limiter) (now : Int)
    (e : Exchange) : Limiter × Exchange :=
  if (l.allow requestsPerSecond now).2 then ((l.allow requestsPerSecond now).1, e)
  else ((l.allow requestsPerSecond now).1, tooManyRequests marshal e)

theorem handle_aborted (marshal : Value → Option Bytes) (requestsPerSecond : Int) (l : Limiter) (now : Int)
    (e : Exchange) (hlive : e.ctx.aborted = false) :
    (l.handle marshal requestsPerSecond now e).2.ctx.aborted = !(l.allow requestsPerSecond now).2 := by
  unfold Limiter.handle
  split
  · simp [*]
  · simp only [*]
    unfold tooManyRequests Exchange.json
    split <;> rfl

/-- The decisions of the handler for requests arriving at `times`, in order. -/
def Limiter.run (requestsPerSecond : Int) : Limiter → List Int → List Bool
  | _, [] => []
  | l, now :: times =>
      (l.allow requestsPerSecond now).2 :: (l.allow requestsPerSecond now).1.run requestsPerSecond times

/-- The number of admitted requests whose time lies in `[a, b]`. -/
def admittedIn (a b : Int) : List Int → List Bool → Nat
  | now :: times, ok :: oks => (if ok = true ∧ a ≤ now ∧ now ≤ b then 1 else 0) + admittedIn a b times oks
  | _, _ => 0

section Budget

variable {rps : Int} {l : Limiter} {now : Int}

@[simp] theorem take_snd (l : Limiter) : l.take.2 = decide (0 < l.tokens) := by
  unfold Limiter.take; split <;> simp_all

@[simp] theorem take_lastRefill (l : Limiter) : l.take.1.lastRefill = l.lastRefill := by
  unfold Limiter.take; split <;> rfl

@[simp] theorem take_tokens (l : Limiter) : l.take.1.tokens = if 0 < l.tokens then l.tokens - 1 else l.tokens := by
  unfold Limiter.take; split <;> simp_all

@[simp] theorem run_cons (l : Limiter) (now : Int) (times : List Int) :
    l.run rps (now :: times) = (l.allow rps now).2 :: (l.allow rps now).1.run rps times := rfl

@[simp] theorem admittedIn_nil {a b : Int} (oks : List Bool) : admittedIn a b [] oks = 0 := rfl

@[simp] theorem admittedIn_cons {a b : Int} (now : Int) (times : List Int) (ok : Bool) (oks : List Bool) :
    admittedIn a b (now :: times) (ok :: oks) =
      (if ok = true ∧ a ≤ now ∧ now ≤ b then 1 else 0) + admittedIn a b times oks := rfl

theorem refill_of_gt (h : now - l.lastRefill > second) : l.refill rps now = ⟨rps, now⟩ := if_pos h

theorem refill_of_le (h : ¬ now - l.lastRefill > second) : l.refill rps now = l := if_neg h

/-- The bucket never holds a negative count nor more than the rate. -/
def Bounded (rps : Int) (l : Limiter) : Prop := 0 ≤ l.tokens ∧ l.tokens ≤ rps

theorem allow_bounded (hrps : 0 ≤ rps) (h : Bounded rps l) : Bounded rps (l.allow rps now).1 := by
  unfold Limiter.allow Bounded at *
  by_cases hr : now - l.lastRefill > second
  · rw [refill_of_gt hr]; simp only [take_tokens]; split <;> omega
  · rw [refill_of_le hr]; simp only [take_tokens]; split <;> omega

theorem admittedIn_of_lt {a b : Int} {times : List Int} (h : ∀ t ∈ times, b < t) (oks : List Bool) :
    admittedIn a b times oks = 0 := by
  induction times generalizing oks with
  | nil => cases oks <;> rfl
  | cons t times ih =>
      cases oks with
      | nil => rfl
      | cons ok oks =>
          have := h t (List.mem_cons_self t times)
          rw [admittedIn_cons, ih (fun u hu => h u (List.mem_cons_of_mem t hu))]
          split <;> omega

/-- Inside a window `[a, b]` that starts at or before the first request: the admissions are at
most the tokens held plus the rate for each refill, and refills, each more than a second after
the last, fit at most `m` times where `m` seconds and `m` nanoseconds fit in the window after
the later of the last refill and `a` less a second. -/
theorem window_admissions (hrps : 0 ≤ rps) (a b : Int) (times : List Int) (hsorted : times.Pairwise (· ≤ ·))
    (hge : ∀ t ∈ times, a ≤ t) (l : Limiter) (hl : 0 ≤ l.tokens) :
    ∃ m : Nat, (admittedIn a b times (l.run rps times) : Int) ≤ l.tokens + rps * m ∧
      m * (second + 1) ≤ max 0 (b - max l.lastRefill (a - second - 1)) := by
  induction times generalizing l with
  | nil => exact ⟨0, by simpa using hl, by simp⟩
  | cons t times ih =>
      obtain ⟨ht, hsorted⟩ := List.pairwise_cons.mp hsorted
      have hat := hge t (List.mem_cons_self t times)
      by_cases hb : b < t
      · refine ⟨0, ?_, by simp⟩
        rw [admittedIn_of_lt (fun u hu => ?_)]
        · simpa using hl
        · rcases List.mem_cons.mp hu with rfl | hu
          · exact hb
          · exact lt_of_lt_of_le hb (ht u hu)
      · have hl' : 0 ≤ (l.allow rps t).1.tokens := by
          unfold Limiter.allow Limiter.refill; split <;> simp only [take_tokens] <;> split <;> omega
        obtain ⟨m, hcount, hm⟩ := ih hsorted (fun u hu => hge u (List.mem_cons_of_mem t hu)) _ hl'
        have hstep : (admittedIn a b (t :: times) (l.run rps (t :: times)) : Int) =
            (if (l.allow rps t).2 then 1 else 0) + admittedIn a b times ((l.allow rps t).1.run rps times) := by
          by_cases hok : (l.allow rps t).2 <;> simp [hok, hat, not_lt.mp hb]
        unfold Limiter.allow at hstep hcount hm
        by_cases hr : t - l.lastRefill > second
        · -- a refill: the rate again, and one more refill to count
          rw [refill_of_gt hr] at hstep hcount hm
          simp only [take_snd, take_tokens, take_lastRefill] at hstep hcount hm
          refine ⟨m + 1, ?_, ?_⟩
          · rw [hstep]
            push_cast
            rw [Int.mul_add, Int.mul_one]
            by_cases h0 : 0 < rps <;> simp [h0] at hcount ⊢ <;> omega
          · unfold second at *
            push_cast
            omega
        · rw [refill_of_le hr] at hstep hcount hm
          simp only [take_snd, take_tokens, take_lastRefill] at hstep hcount hm
          refine ⟨m, ?_, hm⟩
          rw [hstep]
          by_cases h0 : 0 < l.tokens <;> simp [h0] at hcount ⊢ <;> omega

/-- The budget of `RateLimiter(rate)`: for every rate `≥ 0`, every nondecreasing sequence of
request times in nanoseconds, and every window `[a, a + T s]` with `T ≥ 1`, at most
`rate * T + rate` of the requests in the window are admitted. -/
theorem admits_at_most_budget (rps : Int) (hrps : 0 ≤ rps) (created : Int) (times : List Int)
    (hsorted : times.Pairwise (· ≤ ·)) (a : Int) (T : Nat) (hT : 1 ≤ T) :
    (admittedIn a (a + T * second) times ((rateLimiter rps created).run rps times) : Int) ≤ rps * T + rps := by
  suffices h : ∀ l, Bounded rps l →
      (admittedIn a (a + T * second) times (l.run rps times) : Int) ≤ rps * T + rps from
    h _ ⟨hrps, le_rfl⟩
  induction times with
  | nil =>
      intro l _
      rw [admittedIn_nil, Int.ofNat_zero]
      exact Int.add_nonneg (Int.mul_nonneg hrps (Int.ofNat_nonneg T)) hrps
  | cons t times ih =>
      intro l hl
      obtain ⟨ht, hsorted'⟩ := List.pairwise_cons.mp hsorted
      by_cases hat : a ≤ t
      · obtain ⟨m, hcount, hm⟩ := window_admissions hrps a (a + T * second) (t :: times) hsorted
          (fun u hu => by rcases List.mem_cons.mp hu with rfl | hu; exacts [hat, hat.trans (ht u hu)]) l hl.1
        have hmT : (m : Int) ≤ T := by unfold second at hm; omega
        calc (admittedIn a (a + T * second) (t :: times) (l.run rps (t :: times)) : Int)
            ≤ l.tokens + rps * m := hcount
          _ ≤ rps + rps * T := Int.add_le_add hl.2 (Int.mul_le_mul_of_nonneg_left hmT hrps)
          _ = rps * T + rps := Int.add_comm _ _
      · have hstep : admittedIn a (a + T * second) (t :: times) (l.run rps (t :: times)) =
            admittedIn a (a + T * second) times ((l.allow rps t).1.run rps times) := by
          simp [hat]
        rw [hstep]
        exact ih hsorted' _ (allow_bounded hrps hl)

/-- A burst of three at the start and one a second and a nanosecond later, rate 2, window of one
second. -/
theorem admits_at_most_budget_burst :
    (0 : Int) ≤ 2 ∧ [0, 1, 2, 1000000001].Pairwise (· ≤ ·) ∧ 1 ≤ 1 ∧
      (admittedIn 0 (0 + (1 : Nat) * second) [0, 1, 2, 1000000001]
        ((rateLimiter 2 0).run 2 [0, 1, 2, 1000000001]) : Int) ≤ 2 * (1 : Nat) + 2 :=
  ⟨by decide, by decide, le_rfl, admits_at_most_budget 2 (by decide) 0 _ (by decide) 0 1 le_rfl⟩

end Budget

section UniformLoad

/-- `n` requests evenly spaced by `δ` nanoseconds, the first at `start`. -/
def uniformTimes (start δ : Int) : Nat → List Int
  | 0 => []
  | n + 1 => start :: uniformTimes (start + δ) δ n

/-- The variables of the closure after the handler has served requests at `times`. -/
def Limiter.after (rps : Int) (l : Limiter) (times : List Int) : Limiter :=
  times.foldl (fun l now => (l.allow rps now).1) l

variable {rps δ : Int}

theorem uniformTimes_add (start : Int) (a b : Nat) :
    uniformTimes start δ (a + b) = uniformTimes start δ a ++ uniformTimes (start + a * δ) δ b := by
  induction a generalizing start with
  | zero => simp [uniformTimes]
  | succ a ih =>
      rw [Nat.succ_add, uniformTimes, uniformTimes, ih, List.cons_append]
      congr 3
      push_cast; rw [Int.add_mul, Int.one_mul]; omega

theorem run_append (l : Limiter) (xs ys : List Int) :
    l.run rps (xs ++ ys) = l.run rps xs ++ (l.after rps xs).run rps ys := by
  induction xs generalizing l with
  | nil => rfl
  | cons now xs ih => simp only [List.cons_append, run_cons, ih]; rfl

theorem allow_within {k : Int} {t0 now : Int} (h : now - t0 ≤ second) :
    (⟨k, t0⟩ : Limiter).allow rps now = if 0 < k then (⟨k - 1, t0⟩, true) else (⟨k, t0⟩, false) := by
  rw [Limiter.allow, refill_of_le (not_lt.mpr h)]
  unfold Limiter.take; rfl

theorem drain (hδ : 0 < δ) (t0 : Int) (k : Nat) (s : Int) (hlast : s + k * δ - t0 ≤ second) :
    (⟨k, t0⟩ : Limiter).run rps (uniformTimes s δ (k + 1)) = List.replicate k true ++ [false] ∧
      (⟨k, t0⟩ : Limiter).after rps (uniformTimes s δ (k + 1)) = ⟨0, t0⟩ := by
  induction k generalizing s with
  | zero =>
      rw [uniformTimes, uniformTimes, run_cons, Limiter.after, List.foldl_cons,
        allow_within (by simpa using hlast)]
      exact ⟨rfl, rfl⟩
  | succ k ih =>
      have hk : 0 ≤ (k : Int) * δ := Int.mul_nonneg (Int.ofNat_nonneg k) hδ.le
      push_cast at hlast; rw [Int.add_mul, Int.one_mul] at hlast
      have hnext : s + δ + k * δ - t0 ≤ second := by omega
      have hfirst : (⟨(k + 1 : Nat), t0⟩ : Limiter).allow rps s = (⟨k, t0⟩, true) := by
        rw [allow_within (by omega), if_pos (by omega)]
        simp
      rw [uniformTimes, run_cons, Limiter.after, List.foldl_cons, hfirst]
      exact ⟨by rw [(ih _ hnext).1]; rfl, (ih _ hnext).2⟩

theorem period (r : Nat) (hδ : 0 < δ) (hfast : (r + 1) * δ ≤ second) (t0 : Int) (l : Limiter)
    (hl : l.refill (r + 1) t0 = ⟨r + 1, t0⟩) :
    l.run (r + 1) (uniformTimes t0 δ (r + 2)) = List.replicate (r + 1) true ++ [false] ∧
      l.after (r + 1) (uniformTimes t0 δ (r + 2)) = ⟨0, t0⟩ := by
  have hfirst : l.allow (r + 1) t0 = (⟨r, t0⟩, true) := by
    rw [Limiter.allow, hl]
    unfold Limiter.take
    simp only [if_pos (by omega : (0 : Int) < r + 1), add_sub_cancel_right]
  obtain ⟨hrun, hafter⟩ := drain hδ t0 r (t0 + δ) (by rw [Int.add_mul, Int.one_mul] at hfast; omega)
  rw [uniformTimes, run_cons, Limiter.after, List.foldl_cons, hfirst]
  exact ⟨by rw [hrun]; rfl, hafter⟩

/-- Under evenly spaced load with `(r + 1) δ ≤ 1 s < (r + 2) δ`, `RateLimiter(r + 1)` admits
`r + 1` requests of every `r + 2`: the request a second after a refill finds the bucket empty
and no refill yet, and the next refill restarts the clock at the arrival after it. -/
theorem uniform_run (r : Nat) (δ c : Int) (hfast : (r + 1) * δ ≤ second) (hslow : second < (r + 2) * δ)
    (n : Nat) :
    (rateLimiter (r + 1) c).run (r + 1) (uniformTimes c δ ((r + 2) * n)) =
      (List.replicate n (List.replicate (r + 1) true ++ [false])).flatten := by
  have hδ : 0 < δ := by
    by_contra h
    have : (r + 2 : Int) * δ ≤ 0 := Int.mul_nonpos_of_nonneg_of_nonpos (by omega) (by omega)
    unfold second at hslow; omega
  suffices h : ∀ (n : Nat) (t0 : Int) (l : Limiter), l.refill (r + 1) t0 = ⟨r + 1, t0⟩ →
      l.run (r + 1) (uniformTimes t0 δ ((r + 2) * n)) =
        (List.replicate n (List.replicate (r + 1) true ++ [false])).flatten from
    h n c _ (refill_of_le (by simp [second, rateLimiter]))
  intro n
  induction n with
  | zero => intro _ _ _; rfl
  | succ n ih =>
      intro t0 l hl
      obtain ⟨hrun, hafter⟩ := period r hδ hfast t0 l hl
      have hnext : (⟨0, t0⟩ : Limiter).refill (r + 1) (t0 + (r + 2 : Nat) * δ) =
          ⟨r + 1, t0 + (r + 2 : Nat) * δ⟩ :=
        refill_of_gt (by push_cast; omega)
      rw [Nat.mul_succ, Nat.add_comm, uniformTimes_add, run_append, hrun, hafter, ih _ _ hnext]
      rfl

/-- `RateLimiter(rate)` under evenly spaced load, for every rate `r + 1` and spacing `δ` with
`(r + 1) δ ≤ 1 s < (r + 2) δ`: one request of every `r + 2` is refused, so over `T` seconds about
`rate · T / (rate + 1)` are refused, more than `rate` once `T > rate + 1`. At rate 1 with requests
a second apart, the window `[0, 5 s]` holds six requests and admits three, below `1 · 5 − 1`. -/
theorem uniform_load_admits_below_budget :
    (∀ (r : Nat) (δ c : Int) (n : Nat), (r + 1) * δ ≤ second → second < (r + 2) * δ →
      (rateLimiter (r + 1) c).run (r + 1) (uniformTimes c δ ((r + 2) * n)) =
        (List.replicate n (List.replicate (r + 1) true ++ [false])).flatten) ∧
    (admittedIn 0 (0 + (5 : Nat) * second) (uniformTimes 0 second 6)
        ((rateLimiter 1 0).run 1 (uniformTimes 0 second 6)) : Int) < 1 * (5 : Nat) - 1 :=
  ⟨fun r δ c n hfast hslow => uniform_run r δ c hfast hslow n, by decide⟩

end UniformLoad

end FastServer.RateLimiter
