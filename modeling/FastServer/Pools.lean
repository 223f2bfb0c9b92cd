import FastServer.Basic
import Mathlib.Algebra.BigOperators.Group.List
import Mathlib.Data.Multiset.Basic
import Mathlib.Tactic.Abel

namespace FastServer.Pools

/-- `make(chan Task, 256)`: the capacity of every worker queue. -/
def queueCapacity : Nat := 256

/-- A buffered `chan Task`: the tasks in its buffer, oldest first, and whether it is closed.
A task is named by a number; the model runs no task code. -/
structure Chan where
  buf : List Nat
  closed : Bool
  deriving DecidableEq, Repr

/-- Where a `Submit(task)` call is, before the statement named. -/
inductive SubmitPc
  /-- `if p.closed.Load()` -/
  | load
  /-- `p.stats.tasksSubmitted.Add(1)` -/
  | add
  /-- `idx := int(p.stats.tasksSubmitted.Load()) % p.numWorkers` -/
  | index
  /-- the first `select`, sending on `p.queues[idx].tasks` -/
  | send (idx : Int)
  /-- the second `select`, on the next queue -/
  | sendNext (idx : Int)
  /-- `task()` in the caller, both queues being full -/
  | inline
  /-- returned `accepted` -/
  | ret (accepted : Bool)
  deriving DecidableEq, Repr

structure Submit where
  task : Nat
  pc : SubmitPc
  deriving DecidableEq, Repr

/-- Where the goroutine of a `worker.run` is. -/
inductive WorkerPc
  /-- the `select` on its own queue, with a `default` -/
  | poll
  /-- `task()` of a task it received or stole -/
  | exec (task : Nat)
  /-- `trySteal`, before the `select` on the victim of round `i` -/
  | steal (i : Nat)
  /-- `task, ok := <-w.queue.tasks` -/
  | block
  /-- `run` returned -/
  | exit
  deriving DecidableEq, Repr

/-- Where a `Close()` call is. -/
inductive ClosePc
  /-- `p.closed.CompareAndSwap(false, true)` -/
  | cas
  /-- `close(q.tasks)` for the `i`-th queue of the range loop -/
  | close (i : Nat)
  | ret
  deriving DecidableEq, Repr

/-- A `WorkerPool` with every goroutine that uses it: its workers, the `Submit` and `Close`
calls made so far, and the tasks whose `task()` has run, in order. -/
structure WorkerPool where
  numWorkers : Nat
  queues : List Chan
  closed : Bool
  tasksSubmitted : Nat
  workers : List WorkerPc
  submits : List Submit
  closers : List ClosePc
  executed : List Nat
  deriving DecidableEq, Repr

/-- `int(u)` of a `uint64` on a 64-bit platform: from 2^63 on, negative. -/
def toInt64 (u : Nat) : Int := if u < 2 ^ 63 then u else (u : Int) - 2 ^ 64

/-- `int(p.stats.tasksSubmitted.Load()) % p.numWorkers`: the `atomic.Uint64` counter wraps at
2^64, and Go's `%` truncates toward zero, so the index is negative when the converted count is. -/
def submitIndex (tasksSubmitted numWorkers : Nat) : Int :=
  Int.tmod (toInt64 (tasksSubmitted % 2 ^ 64)) numWorkers

/-- After 2^63 calls the index of three workers is negative. -/
example : submitIndex (2 ^ 63) 3 = -2 := by decide

/-- `NewWorkerPool(numWorkers)`: `runtime.NumCPU()` workers when `numWorkers ≤ 0`, each with an
empty open queue and its goroutine at the top of `run`. -/
def newWorkerPool (numCPU : Nat) (numWorkers : Int) : WorkerPool :=
  let n := if numWorkers ≤ 0 then numCPU else numWorkers.toNat
  ⟨n, List.replicate n ⟨[], false⟩, false, 0, List.replicate n .poll, [], [], []⟩

namespace WorkerPool

/-- `case p.queues[i].tasks <- t` in a `select` with a `default`. A send on a closed channel
panics even inside a `select`; `none` is the `default` case, the buffer being full. -/
def trySend (p : WorkerPool) (i t : Nat) : Except String (Option WorkerPool) :=
  match p.queues[i]? with
  | none => .error "index out of range"
  | some c =>
      if c.closed then .error "send on closed channel"
      else if c.buf.length < queueCapacity then
        .ok (some { p with queues := p.queues.set i ⟨c.buf ++ [t], c.closed⟩ })
      else .ok none

/-- A receive from `queues[i]`: `none` when it would block (open and empty), else what it
receives, the zero value `nil` (here `none`) once the channel is closed and drained. -/
def tryRecv (p : WorkerPool) (i : Nat) : Option (Option Nat × WorkerPool) :=
  match p.queues[i]? with
  | some ⟨t :: rest, closed⟩ => some (some t, { p with queues := p.queues.set i ⟨rest, closed⟩ })
  | some ⟨[], true⟩ => some (none, p)
  | _ => none

/-- `close(p.queues[i].tasks)`. -/
def closeQueue (p : WorkerPool) (i : Nat) : Except String WorkerPool :=
  match p.queues[i]? with
  | none => .error "index out of range"
  | some c =>
      if c.closed then .error "close of closed channel"
      else .ok { p with queues := p.queues.set i ⟨c.buf, true⟩ }

/-- One `select` of `Submit` on `p.queues[idx]`: a negative `idx` panics, a send returns `true`,
a full buffer goes to `full`. -/
def sendOr (p : WorkerPool) (idx : Int) (task : Nat) (full : SubmitPc) :
    Except String (WorkerPool × SubmitPc) :=
  if idx < 0 then .error "index out of range"
  else
    match p.trySend idx.toNat task with
    | .error e => .error e
    | .ok (some p') => .ok (p', .ret true)
    | .ok none => .ok (p, full)

/-- A worker's receive from `queues[i]`: a task goes to `task()`, the zero value of a closed
drained queue to `onNil`, and an empty open queue to `onEmpty`. -/
def take (p : WorkerPool) (i : Nat) (onNil onEmpty : WorkerPc) : WorkerPool × WorkerPc :=
  match p.tryRecv i with
  | some (some t, p') => (p', .exec t)
  | some (none, _) => (p, onNil)
  | none => (p, onEmpty)

/-- One step of a `Submit(task)` call at `pc`. -/
def submitStep (p : WorkerPool) (task : Nat) : SubmitPc → Except String (WorkerPool × SubmitPc)
  | .load => .ok (p, if p.closed then .ret false else .add)
  | .add => .ok ({ p with tasksSubmitted := p.tasksSubmitted + 1 }, .index)
  | .index =>
      if p.numWorkers = 0 then .error "integer divide by zero"
      else .ok (p, .send (submitIndex p.tasksSubmitted p.numWorkers))
  | .send idx => p.sendOr idx task (.sendNext (Int.tmod (idx + 1) p.numWorkers))
  | .sendNext idx => p.sendOr idx task .inline
  | .inline => .ok ({ p with executed := p.executed ++ [task] }, .ret true)
  | .ret accepted => .ok (p, .ret accepted)

/-- One step of the goroutine of worker `w` at `pc`. Its own queue is `queues[w]`; `trySteal`
visits `(start + i) % numWorkers` for `i < numWorkers - 1`, from `start = (w + 1) % numWorkers`,
and skips a nil it receives. A blocked receive takes no step. -/
def workerStep (p : WorkerPool) (w : Nat) : WorkerPc → WorkerPool × WorkerPc
  | .poll => p.take w .exit (.steal 0)
  | .exec t => ({ p with executed := p.executed ++ [t] }, .poll)
  | .steal i =>
      if i < p.numWorkers - 1 then
        p.take (((w + 1) % p.numWorkers + i) % p.numWorkers) (.steal (i + 1)) (.steal (i + 1))
      else (p, .block)
  | .block => p.take w .exit .block
  | .exit => (p, .exit)

/-- One step of a `Close()` call at `pc`. -/
def closeStep (p : WorkerPool) : ClosePc → Except String (WorkerPool × ClosePc)
  | .cas => if p.closed then .ok (p, .ret) else .ok ({ p with closed := true }, .close 0)
  | .close i =>
      if i < p.queues.length then
        match p.closeQueue i with
        | .error e => .error e
        | .ok p' => .ok (p', .close (i + 1))
      else .ok (p, .ret)
  | .ret => .ok (p, .ret)

end WorkerPool

/-- The scheduler's choices: a goroutine calls `Submit(task)` or `Close()`, or one goroutine
takes its next step. Every channel operation and flag access is a step of its own. -/
inductive Act
  | submit (task : Nat)
  | submitStep (i : Nat)
  | workerStep (w : Nat)
  | close
  | closeStep (i : Nat)
  deriving DecidableEq, Repr

open WorkerPool in
/-- One step of the whole system; a Go panic is an error. -/
def step (p : WorkerPool) : Act → Except String WorkerPool
  | .submit t => .ok { p with submits := p.submits ++ [⟨t, .load⟩] }
  | .submitStep i =>
      match p.submits[i]? with
      | none => .ok p
      | some s =>
          match p.submitStep s.task s.pc with
          | .error e => .error e
          | .ok (p', pc) => .ok { p' with submits := p'.submits.set i ⟨s.task, pc⟩ }
  | .workerStep w =>
      match p.workers[w]? with
      | none => .ok p
      | some pc => .ok { (p.workerStep w pc).1 with
          workers := (p.workerStep w pc).1.workers.set w (p.workerStep w pc).2 }
  | .close => .ok { p with closers := p.closers ++ [.cas] }
  | .closeStep i =>
      match p.closers[i]? with
      | none => .ok p
      | some pc =>
          match p.closeStep pc with
          | .error e => .error e
          | .ok (p', pc') => .ok { p' with closers := p'.closers.set i pc' }

/-- An interleaving, step after step, stopping at the first panic. -/
def run (p : WorkerPool) : List Act → Except String WorkerPool
  | [] => .ok p
  | a :: acts =>
      match step p a with
      | .error e => .error e
      | .ok p' => run p' acts

/-- A `Submit` that passed the closed check before `Close` set the flag sends on a queue that
`Close` has closed since, and panics. -/
theorem submit_races_close :
    run (newWorkerPool 2 2) [.submit 7, .submitStep 0, .close, .closeStep 0, .closeStep 0,
      .closeStep 0, .submitStep 0, .submitStep 0, .submitStep 0] = .error "send on closed channel" := by
  decide

theorem sum_map_set_add {α M : Type} [AddCancelCommMonoid M] (f : α → M) {l : List α} {i : Nat}
    {a x : α} (h : l[i]? = some a) {d e : M} (hx : f x + d = f a + e) :
    ((l.set i x).map f).sum + d = (l.map f).sum + e := by
  have hset : ((l.set i x).map f).sum + f a = (l.map f).sum + f x := by
    induction l generalizing i with
    | nil => cases h
    | cons b l ih =>
        cases i with
        | zero =>
            obtain rfl := Option.some.inj (List.getElem?_cons_zero ▸ h)
            simp only [List.set_cons_zero, List.map_cons, List.sum_cons]
            rw [add_right_comm, add_comm (f x), add_right_comm]
        | succ i =>
            simp only [List.set_cons_succ, List.map_cons, List.sum_cons, add_assoc, ih (List.getElem?_cons_succ ▸ h)]
  apply add_right_cancel (b := f a)
  calc ((l.set i x).map f).sum + d + f a = (l.map f).sum + (f x + d) := by
        rw [add_right_comm, hset, add_assoc]
    _ = (l.map f).sum + e + f a := by rw [hx, add_comm (f a), add_assoc]

namespace WorkerPool

variable {p p' : WorkerPool} {i t : Nat}

theorem trySend_some (h : p.trySend i t = .ok (some p')) :
    ∃ c, p.queues[i]? = some c ∧ c.closed = false ∧ c.buf.length < queueCapacity ∧
      p' = { p with queues := p.queues.set i ⟨c.buf ++ [t], false⟩ } := by
  unfold trySend at h
  split at h
  · cases h
  · rename_i c hc
    by_cases hcl : c.closed = true
    · simp [hcl] at h
    · by_cases hlen : c.buf.length < queueCapacity
      · simp only [hcl, hlen, if_true, if_false, Except.ok.injEq, Option.some.injEq] at h
        exact ⟨c, hc, by simpa using hcl, hlen, by simpa [hcl] using h.symm⟩
      · simp [hcl, hlen] at h

theorem sendOr_cases {idx : Int} {full pc' : SubmitPc} (h : p.sendOr idx t full = .ok (p', pc')) :
    (∃ c, 0 ≤ idx ∧ p.queues[idx.toNat]? = some c ∧ c.closed = false ∧ c.buf.length < queueCapacity ∧
      p' = { p with queues := p.queues.set idx.toNat ⟨c.buf ++ [t], false⟩ } ∧ pc' = .ret true) ∨
    (p' = p ∧ pc' = full) := by
  unfold sendOr at h
  split at h
  · cases h
  · split at h
    · cases h
    · obtain ⟨c, hc, hcl, hlen, rfl⟩ := trySend_some ‹_›
      cases h
      exact .inl ⟨c, by omega, hc, hcl, hlen, rfl, rfl⟩
    · cases h
      exact .inr ⟨rfl, rfl⟩

theorem take_cases (onNil onEmpty : WorkerPc) :
    p.take i onNil onEmpty = (p, onEmpty) ∨
      (p.queues[i]? = some ⟨[], true⟩ ∧ p.take i onNil onEmpty = (p, onNil)) ∨
      ∃ t rest closed, p.queues[i]? = some ⟨t :: rest, closed⟩ ∧
        p.take i onNil onEmpty = ({ p with queues := p.queues.set i ⟨rest, closed⟩ }, .exec t) := by
  unfold take tryRecv
  split
  · rename_i hq
    split at hq
    · cases hq
      exact .inr (.inr ⟨_, _, _, ‹_›, rfl⟩)
    · cases hq
    · cases hq
  · rename_i hq
    split at hq
    · cases hq
    · cases hq
      exact .inr (.inl ⟨‹_›, rfl⟩)
    · cases hq
  · exact .inl rfl

theorem closeQueue_ok (h : p.closeQueue i = .ok p') :
    ∃ c, p.queues[i]? = some c ∧ c.closed = false ∧ p' = { p with queues := p.queues.set i ⟨c.buf, true⟩ } := by
  unfold closeQueue at h
  split at h
  · cases h
  · rename_i c hc
    split at h
    · cases h
    · cases h
      exact ⟨c, hc, by simpa using ‹¬c.closed = true›, rfl⟩

end WorkerPool

/-- What one step can do to the queues: push a task onto an open queue with room, pop the head
of a queue, or close an open queue. -/
inductive QueueStep : List Chan → List Chan → Prop
  | keep {qs} : QueueStep qs qs
  | push {qs i c} (t : Nat) : qs[i]? = some c → c.closed = false → c.buf.length < queueCapacity →
      QueueStep qs (qs.set i ⟨c.buf ++ [t], false⟩)
  | pop {qs i t rest closed} : qs[i]? = some ⟨t :: rest, closed⟩ → QueueStep qs (qs.set i ⟨rest, closed⟩)
  | close {qs i c} : qs[i]? = some c → c.closed = false → QueueStep qs (qs.set i ⟨c.buf, true⟩)

/-- The closed flags of the queues. -/
def closedFlags (qs : List Chan) : List Bool := qs.map Chan.closed

namespace WorkerPool

variable {p p' : WorkerPool} {i t : Nat}

theorem submitStep_frame {pc pc' : SubmitPc} (h : p.submitStep t pc = .ok (p', pc')) :
    ∃ qs n ex, QueueStep p.queues qs ∧ closedFlags qs = closedFlags p.queues ∧
      p' = { p with queues := qs, tasksSubmitted := n, executed := ex } := by
  cases pc with
  | load | add | inline | ret => cases h; exact ⟨_, _, _, .keep, rfl, rfl⟩
  | index =>
      simp only [submitStep] at h
      split at h <;> cases h
      exact ⟨_, _, _, .keep, rfl, rfl⟩
  | send idx | sendNext idx =>
      rcases sendOr_cases h with ⟨c, -, hc, hcl, hlen, rfl, -⟩ | ⟨rfl, -⟩
      · exact ⟨_, _, _, .push t hc hcl hlen, map_set_of_eq _ hc hcl.symm, rfl⟩
      · exact ⟨_, _, _, .keep, rfl, rfl⟩

theorem take_frame (j : Nat) (a b : WorkerPc) :
    ∃ qs, QueueStep p.queues qs ∧ closedFlags qs = closedFlags p.queues ∧
      (p.take j a b).1 = { p with queues := qs } := by
  rcases take_cases (p := p) (i := j) a b with h | ⟨-, h⟩ | ⟨_, _, _, hc, h⟩
  · exact ⟨_, .keep, rfl, by rw [h]⟩
  · exact ⟨_, .keep, rfl, by rw [h]⟩
  · exact ⟨_, .pop hc, map_set_of_eq _ hc rfl, by rw [h]⟩

theorem workerStep_frame (w : Nat) (pc : WorkerPc) :
    ∃ qs ex, QueueStep p.queues qs ∧ closedFlags qs = closedFlags p.queues ∧
      (p.workerStep w pc).1 = { p with queues := qs, executed := ex } := by
  have htake : ∀ j a b, ∃ qs ex, QueueStep p.queues qs ∧ closedFlags qs = closedFlags p.queues ∧
      (p.take j a b).1 = { p with queues := qs, executed := ex } := by
    intro j a b
    obtain ⟨qs, hq, hflags, h⟩ := take_frame (p := p) j a b
    exact ⟨qs, _, hq, hflags, h⟩
  cases pc with
  | poll | block => exact htake _ _ _
  | exec t => exact ⟨_, _, .keep, rfl, rfl⟩
  | steal i =>
      simp only [workerStep]
      split
      · exact htake _ _ _
      · exact ⟨_, _, .keep, rfl, rfl⟩
  | exit => exact ⟨_, _, .keep, rfl, rfl⟩

theorem closeStep_frame {pc pc' : ClosePc} (h : p.closeStep pc = .ok (p', pc')) :
    ∃ qs b, QueueStep p.queues qs ∧ p' = { p with queues := qs, closed := b } := by
  cases pc with
  | cas =>
      simp only [closeStep] at h
      split at h <;> cases h <;> exact ⟨_, _, .keep, rfl⟩
  | close i =>
      simp only [closeStep] at h
      split at h
      · split at h
        · cases h
        · obtain ⟨c, hc, hcl, rfl⟩ := closeQueue_ok ‹_›
          cases h; exact ⟨_, _, .close hc hcl, rfl⟩
      · cases h; exact ⟨_, _, .keep, rfl⟩
  | ret => cases h; exact ⟨_, _, .keep, rfl⟩

end WorkerPool

variable {p p' : WorkerPool}

theorem step_cases {a : Act} (h : step p a = .ok p') :
    p' = p ∨
      (∃ t, a = .submit t ∧ p' = { p with submits := p.submits ++ [⟨t, .load⟩] }) ∨
      (a = .close ∧ p' = { p with closers := p.closers ++ [.cas] }) ∨
      (∃ i s p₁ pc, a = .submitStep i ∧ p.submits[i]? = some s ∧
        p.submitStep s.task s.pc = .ok (p₁, pc) ∧ p' = { p₁ with submits := p₁.submits.set i ⟨s.task, pc⟩ }) ∨
      (∃ w pc, a = .workerStep w ∧ p.workers[w]? = some pc ∧
        p' = { (p.workerStep w pc).1 with
          workers := (p.workerStep w pc).1.workers.set w (p.workerStep w pc).2 }) ∨
      (∃ i pc p₁ pc', a = .closeStep i ∧ p.closers[i]? = some pc ∧ p.closeStep pc = .ok (p₁, pc') ∧
        p' = { p₁ with closers := p₁.closers.set i pc' }) := by
  cases a with
  | submit t => cases h; exact .inr (.inl ⟨t, rfl, rfl⟩)
  | close => cases h; exact .inr (.inr (.inl ⟨rfl, rfl⟩))
  | submitStep i =>
      simp only [step] at h
      split at h
      · cases h; exact .inl rfl
      · split at h
        · cases h
        · cases h; exact .inr (.inr (.inr (.inl ⟨i, _, _, _, rfl, ‹_›, ‹_›, rfl⟩)))
  | workerStep w =>
      simp only [step] at h
      split at h
      · cases h; exact .inl rfl
      · cases h; exact .inr (.inr (.inr (.inr (.inl ⟨w, _, rfl, ‹_›, rfl⟩))))
  | closeStep i =>
      simp only [step] at h
      split at h
      · cases h; exact .inl rfl
      · split at h
        · cases h
        · cases h; exact .inr (.inr (.inr (.inr (.inr ⟨i, _, _, _, rfl, ‹_›, ‹_›, rfl⟩))))

/-- The tasks in a queue's buffer. -/
def Chan.pending (c : Chan) : Multiset Nat := c.buf

/-- The task of a `Submit` call that has returned `true`. -/
def Submit.accepted (s : Submit) : Multiset Nat := if s.pc = .ret true then {s.task} else 0

/-- The task a worker holds between receiving it and running it. -/
def WorkerPc.holding : WorkerPc → Multiset Nat
  | .exec t => {t}
  | _ => 0

namespace WorkerPool

/-- The tasks of the `Submit` calls that returned `true`. -/
def accepted (p : WorkerPool) : Multiset Nat := (p.submits.map Submit.accepted).sum

/-- The tasks queued, held by a worker, or run. -/
def held (p : WorkerPool) : Multiset Nat :=
  (p.queues.map Chan.pending).sum + (p.workers.map WorkerPc.holding).sum + p.executed

variable {p p' : WorkerPool} {i t : Nat}

theorem held_push {c : Chan} (hc : p.queues[i]? = some c) (closed : Bool) :
    held { p with queues := p.queues.set i ⟨c.buf ++ [t], closed⟩ } = p.held + {t} := by
  have hq := sum_map_set_add Chan.pending hc (x := ⟨c.buf ++ [t], closed⟩) (d := 0) (e := {t})
    (by simp [Chan.pending, ← Multiset.coe_add, Multiset.coe_singleton])
  simp only [held, add_zero] at hq ⊢
  rw [hq]
  abel

theorem held_pop {rest : List Nat} {closed : Bool} (hc : p.queues[i]? = some ⟨t :: rest, closed⟩) :
    held { p with queues := p.queues.set i ⟨rest, closed⟩ } + {t} = p.held := by
  have hq := sum_map_set_add Chan.pending hc (x := ⟨rest, closed⟩) (d := {t}) (e := 0)
    (by simp only [Chan.pending, add_zero, add_comm _ {t}, Multiset.singleton_add, Multiset.cons_coe])
  simp only [held, add_zero] at hq ⊢
  rw [← hq]
  abel

theorem held_close {c : Chan} (hc : p.queues[i]? = some c) :
    held { p with queues := p.queues.set i ⟨c.buf, true⟩ } = p.held := by
  have hq := sum_map_set_add Chan.pending hc (x := ⟨c.buf, true⟩) (d := 0) (e := 0) rfl
  simp only [held, add_zero] at hq ⊢
  rw [hq]

theorem submitStep_held {pc pc' : SubmitPc} (h : p.submitStep t pc = .ok (p', pc')) :
    p'.held + (⟨t, pc⟩ : Submit).accepted = p.held + (⟨t, pc'⟩ : Submit).accepted := by
  cases pc with
  | load => cases h; split <;> rfl
  | add | ret => cases h; rfl
  | index =>
      simp only [submitStep] at h
      split at h <;> cases h
      rfl
  | inline =>
      cases h
      simp [held, Submit.accepted, ← Multiset.coe_add, Multiset.coe_singleton, add_assoc]
  | send idx | sendNext idx =>
      rcases sendOr_cases h with ⟨c, -, hc, -, -, rfl, rfl⟩ | ⟨rfl, rfl⟩
      · simp [held_push hc, Submit.accepted]
      · rfl

theorem take_held {onNil onEmpty : WorkerPc} (hnil : onNil.holding = 0) (hempty : onEmpty.holding = 0) :
    held (p.take i onNil onEmpty).1 + (p.take i onNil onEmpty).2.holding = p.held := by
  rcases take_cases (p := p) (i := i) onNil onEmpty with h | ⟨-, h⟩ | ⟨t, rest, closed, hc, h⟩
  · rw [h, hempty, add_zero]
  · rw [h, hnil, add_zero]
  · rw [h]
    exact held_pop hc

theorem workerStep_held (w : Nat) (pc : WorkerPc) :
    held (p.workerStep w pc).1 + (p.workerStep w pc).2.holding = p.held + pc.holding := by
  cases pc with
  | poll | block =>
      simp only [workerStep, WorkerPc.holding, add_zero]
      exact take_held rfl rfl
  | exec t => simp [workerStep, held, WorkerPc.holding, ← Multiset.coe_add, Multiset.coe_singleton, add_assoc]
  | steal j =>
      simp only [workerStep, WorkerPc.holding, add_zero]
      split
      · exact take_held rfl rfl
      · exact add_zero _
  | exit => rfl

theorem held_setWorker {w : Nat} {pc : WorkerPc} (hw : p.workers[w]? = some pc) (pc' : WorkerPc) :
    held { p with workers := p.workers.set w pc' } + pc.holding = p.held + pc'.holding := by
  have hset := sum_map_set_add WorkerPc.holding hw (x := pc') (d := pc.holding) (e := pc'.holding) (add_comm _ _)
  simp only [held]
  rw [add_right_comm, add_assoc _ _ pc.holding, hset]
  abel

theorem closeStep_held {pc pc' : ClosePc} (h : p.closeStep pc = .ok (p', pc')) : p'.held = p.held := by
  cases pc with
  | cas =>
      simp only [closeStep] at h
      split at h <;> cases h <;> rfl
  | close k =>
      simp only [closeStep] at h
      split at h
      · split at h
        · cases h
        · obtain ⟨c, hc, -, rfl⟩ := closeQueue_ok ‹_›
          cases h
          exact held_close hc
      · cases h; rfl
  | ret => cases h; rfl

end WorkerPool

open WorkerPool

variable {p p' : WorkerPool}

/-- Every step keeps the tasks accepted equal to the tasks queued, held by a worker, or run. -/
theorem step_conserves {a : Act} (h : step p a = .ok p') (hc : p.accepted = p.held) :
    p'.accepted = p'.held := by
  rcases step_cases h with rfl | ⟨t, -, rfl⟩ | ⟨-, rfl⟩ | ⟨i, s, p₁, pc, -, hs, hstep, rfl⟩ |
    ⟨w, pc, -, hw, rfl⟩ | ⟨i, pc, p₁, pc', -, -, hstep, rfl⟩
  · exact hc
  · simpa [accepted, held, Submit.accepted] using hc
  · exact hc
  · have hacc := sum_map_set_add Submit.accepted hs (x := ⟨s.task, pc⟩) (add_comm _ _)
    have hheld := submitStep_held hstep
    obtain ⟨qs, n, ex, -, -, rfl⟩ := submitStep_frame hstep
    apply add_right_cancel (b := s.accepted)
    calc accepted _ + s.accepted = p.held + Submit.accepted ⟨s.task, pc⟩ := by
          rw [← hc]; exact hacc
      _ = held _ + s.accepted := hheld.symm
  · obtain ⟨qs, ex, -, -, hframe⟩ := workerStep_frame (p := p) w pc
    have hw' : (p.workerStep w pc).1.workers[w]? = some pc := by rw [hframe]; exact hw
    apply add_right_cancel (b := pc.holding)
    rw [held_setWorker hw', workerStep_held, ← hc]
    simp only [accepted, hframe]
  · have hheld := closeStep_held hstep
    obtain ⟨qs, b, -, rfl⟩ := closeStep_frame hstep
    exact hc.trans hheld.symm

theorem run_preserves {P : WorkerPool → Prop} (hstep : ∀ {p p' a}, step p a = .ok p' → P p → P p') :
    ∀ {acts : List Act} {p q : WorkerPool}, P p → run p acts = .ok q → P q
  | [], _, _, hp, h => by cases h; exact hp
  | a :: acts, p, q, hp, h => by
      simp only [run] at h
      split at h
      · cases h
      · exact run_preserves hstep (hstep ‹_› hp) h

theorem newWorkerPool_conserves (numCPU : Nat) (numWorkers : Int) :
    (newWorkerPool numCPU numWorkers).accepted = (newWorkerPool numCPU numWorkers).held := by
  simp only [newWorkerPool]
  split <;> simp [accepted, held, Chan.pending, WorkerPc.holding, nsmul_zero]

/-- No task is lost or run twice: in every interleaving that has not panicked, the tasks of the
`Submit` calls that returned `true` are, as a multiset, the tasks still queued, those a worker
has received and not yet run, and those run, by a worker or inline. -/
theorem accepted_eq_queued_running_executed {numCPU : Nat} {numWorkers : Int} {acts : List Act}
    (h : run (newWorkerPool numCPU numWorkers) acts = .ok p) :
    p.accepted = (p.queues.map Chan.pending).sum + (p.workers.map WorkerPc.holding).sum + p.executed :=
  run_preserves step_conserves (newWorkerPool_conserves numCPU numWorkers) h

/-- Task 7 goes to queue 1, whose worker receives it: it is accounted for as held. -/
theorem accepted_eq_queued_running_executed_received :
    ∃ p, run (newWorkerPool 2 2) [.submit 7, .submitStep 0, .submitStep 0, .submitStep 0, .submitStep 0,
        .workerStep 1] = .ok p ∧
      p.accepted = (p.queues.map Chan.pending).sum + (p.workers.map WorkerPc.holding).sum + p.executed :=
  have h : run (newWorkerPool 2 2) [.submit 7, .submitStep 0, .submitStep 0, .submitStep 0, .submitStep 0,
      .workerStep 1] = .ok _ := rfl
  ⟨_, h, accepted_eq_queued_running_executed h⟩

namespace QueueStep

variable {qs qs' : List Chan}

theorem capacity (h : QueueStep qs qs') (hcap : ∀ c ∈ qs, c.buf.length ≤ queueCapacity) :
    ∀ c ∈ qs', c.buf.length ≤ queueCapacity := by
  intro c' hc'
  cases h with
  | keep => exact hcap c' hc'
  | push t hc _ hlen =>
      rcases List.mem_or_eq_of_mem_set hc' with hc' | rfl
      · exact hcap c' hc'
      · simp only [List.length_append, List.length_singleton]; omega
  | pop hc =>
      have hold := hcap _ (List.getElem?_mem hc)
      rcases List.mem_or_eq_of_mem_set hc' with hc' | rfl
      · exact hcap c' hc'
      · simp only [List.length_cons] at hold ⊢; omega
  | close hc _ =>
      have hold := hcap _ (List.getElem?_mem hc)
      rcases List.mem_or_eq_of_mem_set hc' with hc' | rfl
      · exact hcap c' hc'
      · exact hold

theorem keeps_drained {w : Nat} (h : QueueStep qs qs') (hw : qs[w]? = some ⟨[], true⟩) :
    qs'[w]? = some ⟨[], true⟩ := by
  cases h with
  | keep => exact hw
  | @push i c t hc hcl _ =>
      have hne : i ≠ w := by
        rintro rfl
        rw [hw, Option.some.injEq] at hc
        rw [← hc] at hcl
        cases hcl
      rwa [List.getElem?_set_ne hne]
  | @close i c hc hcl =>
      have hne : i ≠ w := by
        rintro rfl
        rw [hw, Option.some.injEq] at hc
        rw [← hc] at hcl
        cases hcl
      rwa [List.getElem?_set_ne hne]
  | @pop i t rest closed hc =>
      have hne : i ≠ w := by
        rintro rfl
        rw [hw] at hc
        cases hc
      rwa [List.getElem?_set_ne hne]

end QueueStep

theorem step_frame {a : Act} (h : step p a = .ok p') :
    QueueStep p.queues p'.queues ∧ p'.numWorkers = p.numWorkers := by
  rcases step_cases h with rfl | ⟨t, -, rfl⟩ | ⟨-, rfl⟩ | ⟨i, s, p₁, pc, -, -, hstep, rfl⟩ |
    ⟨w, pc, -, -, rfl⟩ | ⟨i, pc, p₁, pc', -, -, hstep, rfl⟩
  · exact ⟨.keep, rfl⟩
  · exact ⟨.keep, rfl⟩
  · exact ⟨.keep, rfl⟩
  · obtain ⟨qs, n, ex, hq, -, rfl⟩ := submitStep_frame hstep
    exact ⟨hq, rfl⟩
  · obtain ⟨qs, ex, hq, -, hframe⟩ := workerStep_frame (p := p) w pc
    simp only [hframe]
    exact ⟨hq, trivial⟩
  · obtain ⟨qs, b, hq, rfl⟩ := closeStep_frame hstep
    exact ⟨hq, rfl⟩

theorem step_capacity {a : Act} (h : step p a = .ok p')
    (hcap : ∀ c ∈ p.queues, c.buf.length ≤ queueCapacity) :
    ∀ c ∈ p'.queues, c.buf.length ≤ queueCapacity :=
  (step_frame h).1.capacity hcap

theorem closeStep_closed_mono {pc pc' : ClosePc} {p₁ : WorkerPool} (h : p.closeStep pc = .ok (p₁, pc'))
    (hcl : p.closed = true) : p₁.closed = true := by
  cases pc with
  | cas =>
      simp only [WorkerPool.closeStep] at h
      split at h <;> cases h <;> exact hcl
  | close k =>
      simp only [WorkerPool.closeStep] at h
      split at h
      · split at h
        · cases h
        · obtain ⟨c, -, -, rfl⟩ := closeQueue_ok ‹_›
          cases h; exact hcl
      · cases h; exact hcl
  | ret => cases h; exact hcl

theorem step_closed_mono {a : Act} (h : step p a = .ok p') (hcl : p.closed = true) :
    p'.closed = true := by
  rcases step_cases h with rfl | ⟨t, -, rfl⟩ | ⟨-, rfl⟩ | ⟨i, s, p₁, pc, -, -, hstep, rfl⟩ |
    ⟨w, pc, -, -, rfl⟩ | ⟨i, pc, p₁, pc', -, -, hstep, rfl⟩
  · exact hcl
  · exact hcl
  · exact hcl
  · obtain ⟨qs, n, ex, -, -, rfl⟩ := submitStep_frame hstep
    exact hcl
  · obtain ⟨qs, ex, -, -, hframe⟩ := workerStep_frame (p := p) w pc
    simpa only [hframe] using hcl
  · exact (closeStep_closed_mono hstep hcl : p₁.closed = true)

/-- `Close` runs safely: while the flag is clear every queue is open and every `Close` call is
before its compare-and-swap; once it is set, at most one call (the one whose swap succeeded)
is in its closing loop, at `close k`, and the queues closed are exactly those before `k`. -/
structure CloseInv (p : WorkerPool) : Prop where
  clear : p.closed = false →
    (∀ b ∈ closedFlags p.queues, b = false) ∧ ∀ pc ∈ p.closers, pc = ClosePc.cas
  closing : ∀ i k : Nat, p.closers[i]? = some (ClosePc.close k) →
    (∀ (j : Nat) b, (closedFlags p.queues)[j]? = some b → (b = true ↔ j < k)) ∧
      ∀ i' k' : Nat, p.closers[i']? = some (ClosePc.close k') → i' = i

namespace CloseInv

variable {i : Nat} {pc : ClosePc}

theorem congr (h : CloseInv p) (hf : closedFlags p'.queues = closedFlags p.queues)
    (hc : p'.closers = p.closers) (hb : p'.closed = p.closed) : CloseInv p' := by
  obtain ⟨hclear, hclosing⟩ := h
  exact ⟨by rw [hf, hc, hb]; exact hclear, by rw [hf, hc]; exact hclosing⟩

end CloseInv

namespace CloseInv

variable {i : Nat} {pc : ClosePc}

end CloseInv

/-- Once the flag is set, by the compare-and-swap of a `Close`, every `Submit` whose closed check
comes later returns `false`. -/
theorem submit_after_close_rejected {q : WorkerPool} {acts : List Act} {i t : Nat}
    (hcl : p.closed = true) (hrun : run p acts = .ok q) (hs : q.submits[i]? = some ⟨t, .load⟩) :
    step q (.submitStep i) = .ok { q with submits := q.submits.set i ⟨t, .ret false⟩ } := by
  have hq : q.closed = true := run_preserves (P := fun p => p.closed = true) step_closed_mono hcl hrun
  simp [step, hs, WorkerPool.submitStep, hq]

/-- A worker that has returned left its own queue closed and drained. -/
def ExitDrained (p : WorkerPool) : Prop :=
  ∀ w : Nat, p.workers[w]? = some .exit → p.queues[w]? = some ⟨[], true⟩

theorem workerStep_exit {w : Nat} {pc : WorkerPc} (h : (p.workerStep w pc).2 = .exit) :
    pc = .exit ∨ p.queues[w]? = some ⟨[], true⟩ := by
  have htake : ∀ {j a b}, (p.take j a b).2 = .exit → a ≠ .exit → b ≠ .exit → False := by
    intro j a b h ha hb
    rcases take_cases (p := p) (i := j) a b with h' | ⟨-, h'⟩ | ⟨_, _, _, -, h'⟩ <;> rw [h'] at h
    · exact hb h
    · exact ha h
    · cases h
  have hown : ∀ {b}, (p.take w .exit b).2 = .exit → b ≠ .exit → p.queues[w]? = some ⟨[], true⟩ := by
    intro b h hb
    rcases take_cases (p := p) (i := w) .exit b with h' | ⟨hq, -⟩ | ⟨_, _, _, -, h'⟩
    · rw [h'] at h; exact absurd h hb
    · exact hq
    · rw [h'] at h; cases h
  cases pc with
  | poll => exact .inr (hown h (by simp))
  | block => exact .inr (hown h (by simp))
  | exec t => cases h
  | steal j =>
      simp only [WorkerPool.workerStep] at h
      split at h
      · exact (htake h (by simp) (by simp)).elim
      · cases h
  | exit => exact .inl rfl

theorem step_exitDrained {a : Act} (h : step p a = .ok p') (hd : ExitDrained p) : ExitDrained p' := by
  intro w hw
  have hq := (step_frame h).1
  suffices p.workers[w]? = some .exit ∨ p.queues[w]? = some ⟨[], true⟩ by
    rcases this with hw' | hq'
    · exact hq.keeps_drained (hd w hw')
    · exact hq.keeps_drained hq'
  rcases step_cases h with rfl | ⟨t, -, rfl⟩ | ⟨-, rfl⟩ | ⟨i, s, p₁, pc, -, -, hstep, rfl⟩ |
    ⟨w', pc, -, hw', rfl⟩ | ⟨i, pc, p₁, pc', -, -, hstep, rfl⟩
  · exact .inl hw
  · exact .inl hw
  · exact .inl hw
  · obtain ⟨qs, n, ex, -, -, rfl⟩ := submitStep_frame hstep
    exact .inl hw
  · obtain ⟨qs, ex, -, -, hframe⟩ := workerStep_frame (p := p) w' pc
    simp only [hframe] at hw
    rw [List.getElem?_set] at hw
    split_ifs at hw with hww
    · subst hww
      rcases workerStep_exit (Option.some.inj hw) with rfl | hq'
      · exact .inl hw'
      · exact .inr hq'
    · exact .inl hw
  · obtain ⟨qs, b, -, rfl⟩ := closeStep_frame hstep
    exact .inl hw

/-- Every interleaving keeps the queues within their capacity, and a worker that has returned
has left its queue closed and empty, so no accepted task is stranded there. -/
theorem run_capacity_exitDrained {numCPU : Nat} {numWorkers : Int} {acts : List Act}
    (h : run (newWorkerPool numCPU numWorkers) acts = .ok p) :
    (∀ c ∈ p.queues, c.buf.length ≤ queueCapacity) ∧ ExitDrained p := by
  refine ⟨run_preserves (P := fun p => ∀ c ∈ p.queues, c.buf.length ≤ queueCapacity)
    step_capacity ?_ h, run_preserves step_exitDrained ?_ h⟩
  · intro c hc
    simp only [newWorkerPool] at hc
    split at hc <;> simp only [List.mem_replicate] at hc <;> rw [hc.2] <;> decide
  · intro w hw
    simp only [newWorkerPool] at hw
    split at hw <;> simp [List.getElem?_replicate] at hw

/-- A task run by the only worker, then `Close`: the worker drains its queue and returns. -/
theorem run_capacity_exitDrained_close :
    ∃ p, run (newWorkerPool 1 1) [.submit 7, .submitStep 0, .submitStep 0, .submitStep 0, .submitStep 0, .close,
        .closeStep 0, .closeStep 0, .closeStep 0, .closeStep 0, .workerStep 0, .workerStep 0, .workerStep 0,
        .workerStep 0, .workerStep 0, .workerStep 0] = .ok p ∧
      (∀ c ∈ p.queues, c.buf.length ≤ queueCapacity) ∧ ExitDrained p :=
  have h : run (newWorkerPool 1 1) [.submit 7, .submitStep 0, .submitStep 0, .submitStep 0, .submitStep 0, .close,
      .closeStep 0, .closeStep 0, .closeStep 0, .closeStep 0, .workerStep 0, .workerStep 0, .workerStep 0,
      .workerStep 0, .workerStep 0, .workerStep 0] = .ok _ := rfl
  ⟨_, h, run_capacity_exitDrained h⟩

end FastServer.Pools
