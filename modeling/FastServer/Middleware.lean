import FastServer.Context

namespace FastServer.Middleware

open Response Context

/-- How a Go function call on the context ends: it returns, or it panics with a message,
leaving the context and the fd in the state reached when it panicked. -/
abbrev Outcome := Except (String × Exchange) Exchange

/-- A `HandlerFunc func(*http.FDContext)`, as its effect on the context and the fd. -/
abbrev Handler := Exchange → Outcome

structure Pipeline where
  handlers : List Handler
  length : Nat

def newPipeline : Pipeline := ⟨[], 0⟩

def Pipeline.use (p : Pipeline) (handler : Handler) : Pipeline :=
  ⟨p.handlers ++ [handler], (p.handlers ++ [handler]).length⟩

/-- The loop of `Execute`: run each middleware, stop as soon as the context is aborted, and
run the final handler if none aborted. A panic leaves the loop at once. -/
def executeLoop (finalHandler : Handler) : List Handler → Exchange → Outcome
  | [], e => if !e.ctx.aborted then finalHandler e else .ok e
  | h :: hs, e => do
      let e ← h e
      if e.ctx.aborted then .ok e else executeLoop finalHandler hs e

/-- `Pipeline.Execute`: with no middlewares the final handler runs directly. -/
def Pipeline.execute (p : Pipeline) (e : Exchange) (finalHandler : Handler) : Outcome :=
  if p.length = 0 then finalHandler e else executeLoop finalHandler (p.handlers.take p.length) e

/-- A function whose body is `body` and which defers `func() { if err := recover(); err != nil
{ onPanic } }`: the deferred call catches a panic raised by `body` itself, nothing else. -/
def deferRecover (body : Handler) (onPanic : Exchange → Exchange) : Handler := fun e =>
  match body e with
  | .ok e => .ok e
  | .error (_, e) => .ok (onPanic e)

/-- The 500 response written by `Recovery`'s deferred function. -/
def recoveryResponse (marshal : Value → Option Bytes) (e : Exchange) : Exchange :=
  { e with ctx := e.ctx.abort }.json marshal 500
    (.object [(lit "error", .str (lit "Internal Server Error"))])

/-- `Recovery()`: its body is empty, so its deferred `recover` has nothing to catch. -/
def recovery (marshal : Value → Option Bytes) : Handler :=
  deferRecover .ok (recoveryResponse marshal)

theorem recovery_apply (marshal : Value → Option Bytes) (e : Exchange) : recovery marshal e = .ok e :=
  rfl

theorem executeLoop_append_recovery (marshal : Value → Option Bytes) (finalHandler : Handler)
    (pre post : List Handler) (e : Exchange) (hlive : e.ctx.aborted = false) :
    executeLoop finalHandler (pre ++ recovery marshal :: post) e =
      executeLoop finalHandler (pre ++ post) e := by
  induction pre generalizing e with
  | nil =>
      cases post with
      | nil => simp [executeLoop, recovery_apply, hlive]
      | cons h hs => simp [executeLoop, recovery_apply, hlive]
  | cons h hs ih =>
      simp only [List.cons_append, executeLoop]
      cases h e with
      | error p => rfl
      | ok e' =>
          cases ha : e'.ctx.aborted
          · simp [ha, ih e' ha]
          · simp [ha]

theorem execute_of_length (hs : List Handler) (e : Exchange) (finalHandler : Handler) :
    (⟨hs, hs.length⟩ : Pipeline).execute e finalHandler =
      if hs.length = 0 then finalHandler e else executeLoop finalHandler hs e := by
  simp [Pipeline.execute]

/-- Adding `Recovery()` anywhere to a non-empty middleware list changes no run of `Execute`: a
panic that escaped `Execute` before still escapes it, with the same message and state. -/
theorem execute_with_recovery (marshal : Value → Option Bytes) (pre post : List Handler)
    (hne : pre ++ post ≠ []) (e : Exchange) (hlive : e.ctx.aborted = false) (finalHandler : Handler) :
    (⟨pre ++ recovery marshal :: post, (pre ++ recovery marshal :: post).length⟩ : Pipeline).execute
        e finalHandler =
      (⟨pre ++ post, (pre ++ post).length⟩ : Pipeline).execute e finalHandler := by
  rw [execute_of_length, execute_of_length, if_neg (by simp), if_neg (by simpa using hne),
    executeLoop_append_recovery marshal finalHandler pre post e hlive]

/-- A pass-through middleware and a panicking final handler, with `Recovery()` after the
middleware or not. -/
theorem execute_with_recovery_panicking_handler :
    [(Except.ok : Handler)] ++ [] ≠ [] ∧ (⟨FDContext.empty, []⟩ : Exchange).ctx.aborted = false ∧
      (⟨[(Except.ok : Handler)] ++ recovery (fun _ => none) :: [],
          ([(Except.ok : Handler)] ++ recovery (fun _ => none) :: []).length⟩ : Pipeline).execute
          ⟨FDContext.empty, []⟩ (fun e => .error ("test panic", e)) =
        (⟨[(Except.ok : Handler)] ++ [], ([(Except.ok : Handler)] ++ []).length⟩ : Pipeline).execute
          ⟨FDContext.empty, []⟩ (fun e => .error ("test panic", e)) :=
  ⟨by simp, rfl, execute_with_recovery _ _ _ (by simp) _ rfl _⟩

/-- The run of `TestRecoveryMiddleware`: `Recovery()` then a final handler that panics. The
panic comes out of `Execute`, and no 500 response is written. -/
theorem recovery_misses_handler_panic (marshal : Value → Option Bytes) :
    (newPipeline.use (recovery marshal)).execute ⟨FDContext.empty, []⟩ (fun e => .error ("test panic", e)) =
      .error ("test panic", ⟨FDContext.empty, []⟩) :=
  rfl

/-- A handler that returns normally, with effect `f` on the context and the fd. -/
def returning (f : Exchange → Exchange) : Handler := fun e => .ok (f e)

/-- The state after the first `j` middlewares have run. -/
def runFirst (ms : List (Exchange → Exchange)) (j : Nat) (e : Exchange) : Exchange :=
  (ms.take j).foldl (fun e m => m e) e

theorem foldl_use (ms : List (Exchange → Exchange)) (hs : List Handler) :
    ms.foldl (fun (p : Pipeline) m => p.use (returning m)) ⟨hs, hs.length⟩ =
      ⟨hs ++ ms.map returning, (hs ++ ms.map returning).length⟩ := by
  induction ms generalizing hs with
  | nil => simp
  | cons m ms ih =>
      rw [List.foldl_cons, show (⟨hs, hs.length⟩ : Pipeline).use (returning m) =
        ⟨hs ++ [returning m], (hs ++ [returning m]).length⟩ from rfl, ih]
      simp

theorem execute_use (ms : List (Exchange → Exchange)) (e : Exchange) (fin : Exchange → Exchange)
    (hlive : e.ctx.aborted = false) :
    (ms.foldl (fun p m => p.use (returning m)) newPipeline).execute e (returning fin) =
      executeLoop (returning fin) (ms.map returning) e := by
  rw [show newPipeline = ⟨[], [].length⟩ from rfl, foldl_use, List.nil_append, execute_of_length]
  split
  · rename_i h
    rw [List.eq_nil_of_length_eq_zero h]
    simp [List.length_map, List.length_eq_zero] at h
    simp [executeLoop, returning, hlive, h]
  · rfl

theorem executeLoop_abort (fin : Exchange → Exchange) (ms : List (Exchange → Exchange)) (e : Exchange)
    {k : Nat} (hk : k < ms.length) (hlive : ∀ j ≤ k, (runFirst ms j e).ctx.aborted = false)
    (habort : (runFirst ms (k + 1) e).ctx.aborted = true) :
    executeLoop (returning fin) (ms.map returning) e = .ok (runFirst ms (k + 1) e) := by
  induction ms generalizing e k with
  | nil => simp at hk
  | cons m ms ih =>
      cases k with
      | zero =>
          simp only [runFirst, List.take_succ_cons, List.take_zero, List.foldl_cons, List.foldl_nil] at habort ⊢
          simp [executeLoop, returning, habort]
      | succ k =>
          have h₁ : (m e).ctx.aborted = false := hlive 1 (by omega)
          simp only [List.map_cons, executeLoop, returning, bind, Except.bind, h₁]
          exact ih (m e) (by simpa using hk) (fun j hj => hlive (j + 1) (by omega)) habort

theorem executeLoop_live (fin : Exchange → Exchange) (ms : List (Exchange → Exchange)) (e : Exchange)
    (hlive : ∀ j ≤ ms.length, (runFirst ms j e).ctx.aborted = false) :
    executeLoop (returning fin) (ms.map returning) e = .ok (fin (ms.foldl (fun e m => m e) e)) := by
  induction ms generalizing e with
  | nil => simp [executeLoop, returning, show e.ctx.aborted = false from hlive 0 le_rfl]
  | cons m ms ih =>
      have h₁ : (m e).ctx.aborted = false := hlive 1 (by simp)
      simp only [List.map_cons, executeLoop, returning, bind, Except.bind, h₁]
      exact ih (m e) fun j hj => hlive (j + 1) (by simpa using hj)

/-- The capacity of `workerCh`. -/
def workerChCap : Nat := 256

/-- An `AsyncPipeline`: the sync pipeline, the async middlewares, and the tasks waiting in
`workerCh`, each the handler it will run on its context. -/
structure AsyncPipeline where
  sync : Pipeline
  async : List Handler
  workerCh : List Handler

/-- The dispatch loop of `AsyncPipeline.Execute`: an async middleware is queued while
`workerCh` has room, and run inline (the `select`'s `default`) once it is full. -/
def dispatch : List Handler → List Handler → Exchange → Except (String × Exchange) (List Handler × Exchange)
  | [], ch, e => .ok (ch, e)
  | h :: hs, ch, e =>
      if ch.length < workerChCap then dispatch hs (ch ++ [h]) e
      else
        match h e with
        | .error err => .error err
        | .ok e => dispatch hs ch e

/-- `AsyncPipeline.Execute`: the sync pipeline, then, when the context is not aborted, the
dispatch of every async middleware. -/
def AsyncPipeline.execute (p : AsyncPipeline) (e : Exchange) (finalHandler : Handler) :
    Except (String × Exchange) (AsyncPipeline × Exchange) :=
  match p.sync.execute e finalHandler with
  | .error err => .error err
  | .ok e =>
      if !e.ctx.aborted then (dispatch p.async p.workerCh e).map fun r => ({ p with workerCh := r.1 }, r.2)
      else .ok (p, e)

/-- Each async middleware is dispatched once, in order: the first ones while `workerCh` has
room, the rest inline. -/
theorem dispatch_returning (fs : List (Exchange → Exchange)) (ch : List Handler) (e : Exchange) :
    dispatch (fs.map returning) ch e =
      .ok (ch ++ (fs.map returning).take (workerChCap - ch.length),
        (fs.drop (workerChCap - ch.length)).foldl (fun e f => f e) e) := by
  induction fs generalizing ch e with
  | nil => simp [dispatch]
  | cons f fs ih =>
      by_cases h : ch.length < workerChCap
      · obtain ⟨n, hn⟩ : ∃ n, workerChCap - ch.length = n + 1 := ⟨_, (Nat.succ_pred_eq_of_pos (by omega)).symm⟩
        have hn' : workerChCap - (ch.length + 1) = n := by omega
        simp [dispatch, h, ih, hn, hn']
      · have hz : workerChCap - ch.length = 0 := by omega
        simp [dispatch, h, ih, hz, returning]

/-- `Execute` runs the middlewares in insertion order up to and including the first that leaves
the context aborted, and then neither the rest nor the final handler; when none aborts it runs
each of them once and then the final handler. `AsyncPipeline.Execute` then dispatches every
async middleware exactly once, queued while `workerCh` has room and inline after that, if the
synchronous part left the context not aborted, and none otherwise. -/
theorem execute_runs_in_order_until_abort (ms fs : List (Exchange → Exchange)) (fin : Exchange → Exchange)
    (ch : List Handler) (e : Exchange) (hlive : e.ctx.aborted = false) :
    let p := ms.foldl (fun (p : Pipeline) m => p.use (returning m)) newPipeline
    (∀ k < ms.length, (∀ j ≤ k, (runFirst ms j e).ctx.aborted = false) →
        (runFirst ms (k + 1) e).ctx.aborted = true → p.execute e (returning fin) = .ok (runFirst ms (k + 1) e)) ∧
      ((∀ j ≤ ms.length, (runFirst ms j e).ctx.aborted = false) →
        p.execute e (returning fin) = .ok (fin (ms.foldl (fun e m => m e) e))) ∧
      ∀ e₁, p.execute e (returning fin) = .ok e₁ →
        (⟨p, fs.map returning, ch⟩ : AsyncPipeline).execute e (returning fin) =
          if e₁.ctx.aborted then .ok (⟨p, fs.map returning, ch⟩, e₁)
          else .ok (⟨p, fs.map returning, ch ++ (fs.map returning).take (workerChCap - ch.length)⟩,
            (fs.drop (workerChCap - ch.length)).foldl (fun e f => f e) e₁) := by
  intro p
  have hexec : p.execute e (returning fin) = executeLoop (returning fin) (ms.map returning) e :=
    execute_use ms e fin hlive
  refine ⟨fun k hk hl ha => hexec ▸ executeLoop_abort fin ms e hk hl ha,
    fun hl => hexec ▸ executeLoop_live fin ms e hl, fun e₁ h₁ => ?_⟩
  simp only [AsyncPipeline.execute, h₁]
  cases e₁.ctx.aborted <;> simp [dispatch_returning, Except.map]

/-- `CORS` on an `OPTIONS` request, as its header calls and its abort, then a middleware and the
final handler that each write a byte: neither runs, and no async middleware is dispatched. -/
theorem execute_runs_in_order_until_abort_cors :
    let e : Exchange := ⟨FDContext.empty.reset 3 none, []⟩
    let cors : Exchange → Exchange := fun e =>
      { e with ctx := ((e.ctx.setHeader (lit "Access-Control-Allow-Origin") (lit "*")).abort).status 204 }
    let mark : Exchange → Exchange := fun e => { e with sent := e.sent ++ [1] }
    let ms := [cors, mark]
    let p := ms.foldl (fun (p : Pipeline) m => p.use (returning m)) newPipeline
    e.ctx.aborted = false ∧
      ((∀ k < ms.length, (∀ j ≤ k, (runFirst ms j e).ctx.aborted = false) →
        (runFirst ms (k + 1) e).ctx.aborted = true → p.execute e (returning mark) = .ok (runFirst ms (k + 1) e)) ∧
      ((∀ j ≤ ms.length, (runFirst ms j e).ctx.aborted = false) →
        p.execute e (returning mark) = .ok (mark (ms.foldl (fun e m => m e) e))) ∧
      ∀ e₁, p.execute e (returning mark) = .ok e₁ →
        (⟨p, [mark].map returning, []⟩ : AsyncPipeline).execute e (returning mark) =
          if e₁.ctx.aborted then .ok (⟨p, [mark].map returning, []⟩, e₁)
          else .ok (⟨p, [mark].map returning, [] ++ ([mark].map returning).take (workerChCap - 0)⟩,
            ([mark].drop (workerChCap - 0)).foldl (fun e f => f e) e₁)) :=
  ⟨rfl, execute_runs_in_order_until_abort _ [_] _ [] _ rfl⟩

end FastServer.Middleware
