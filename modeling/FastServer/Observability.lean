import FastServer.Basic
import Mathlib.Data.UInt

namespace FastServer.Observability

/-- `uint64(duration.Nanoseconds())`: a `time.Duration` is an `int64` count of nanoseconds. -/
def durationNs (d : Int) : UInt64 := UInt64.ofNat (d % 2 ^ 64).toNat

/-- The two CAS loops that `updateMinMax` and `updateSyscallMinMax` share, on a minimum and a
maximum: alone on the counters, each `CompareAndSwap` succeeds the first time. A minimum of `0`
stands for "none yet". -/
def minMaxStep (mn mx d : UInt64) : UInt64 × UInt64 :=
  (if mn = 0 ∨ d < mn then d else mn, if d > mx then d else mx)

/-- The bucket `updateLatencyBucket` counts a request of `ms` milliseconds in. -/
def latencyBucket (ms : UInt64) : Nat :=
  if ms < 1 then 0 else if ms < 5 then 1 else if ms < 10 then 2 else if ms < 50 then 3
  else if ms < 100 then 4 else if ms < 500 then 5 else if ms < 1000 then 6
  else if ms < 5000 then 7 else if ms < 10000 then 8 else 9

/-- `HandlerMetrics`; `latencyBuckets` has its 10 entries. -/
structure HandlerMetrics where
  count : UInt64
  errors : UInt64
  totalDuration : UInt64
  minDuration : UInt64
  maxDuration : UInt64
  latencyBuckets : List UInt64
  deriving DecidableEq, Repr

/-- `&HandlerMetrics{Name: handler}`. -/
def HandlerMetrics.empty : HandlerMetrics := ⟨0, 0, 0, 0, 0, List.replicate 10 0⟩

def updateMinMax (m : HandlerMetrics) (d : UInt64) : HandlerMetrics :=
  { m with minDuration := (minMaxStep m.minDuration m.maxDuration d).1,
           maxDuration := (minMaxStep m.minDuration m.maxDuration d).2 }

def updateLatencyBucket (m : HandlerMetrics) (durationNs : UInt64) : HandlerMetrics :=
  { m with latencyBuckets := m.latencyBuckets.modify (· + 1) (latencyBucket (durationNs / 1000000)) }

/-- A `PerformanceMonitor`: the switch, the `handlers` map and the global counters that
`RecordRequest` adds to. -/
structure PerformanceMonitor where
  enabled : Bool
  handlers : GoMap Bytes HandlerMetrics
  totalRequests : UInt64
  totalDuration : UInt64
  deriving DecidableEq, Repr

def newPerformanceMonitor : PerformanceMonitor := ⟨true, [], 0, 0⟩

/-- `RecordRequest(handler, duration, isError)`; `LoadOrStore` gives the handler's metrics or new
ones. -/
def PerformanceMonitor.recordRequest (pm : PerformanceMonitor) (handler : Bytes) (duration : Int)
    (isError : Bool) : PerformanceMonitor :=
  if !pm.enabled then pm
  else
    let metrics := (pm.handlers.get handler).getD HandlerMetrics.empty
    let metrics := { metrics with count := metrics.count + 1 }
    let metrics := if isError then { metrics with errors := metrics.errors + 1 } else metrics
    let d := durationNs duration
    let metrics := { metrics with totalDuration := metrics.totalDuration + d }
    let metrics := updateLatencyBucket (updateMinMax metrics d) d
    { pm with handlers := pm.handlers.set handler metrics, totalRequests := pm.totalRequests + 1,
              totalDuration := pm.totalDuration + d }

/-- `RecordRequest` for each call `(handler, duration, isError)`, in order. -/
def PerformanceMonitor.run (pm : PerformanceMonitor) : List (Bytes × Int × Bool) → PerformanceMonitor
  | [] => pm
  | (handler, duration, isError) :: calls => (pm.recordRequest handler duration isError).run calls

/-- `SyscallStats` without its `Name`. -/
structure SyscallStats where
  count : UInt64
  totalTime : UInt64
  minTime : UInt64
  maxTime : UInt64
  errors : UInt64
  deriving DecidableEq, Repr

def SyscallStats.empty : SyscallStats := ⟨0, 0, 0, 0, 0⟩

def updateSyscallMinMax (stats : SyscallStats) (duration : UInt64) : SyscallStats :=
  { stats with minTime := (minMaxStep stats.minTime stats.maxTime duration).1,
               maxTime := (minMaxStep stats.minTime stats.maxTime duration).2 }

/-- The part of an `EBPFTracer` that `TraceSystemCall` uses. -/
structure EBPFTracer where
  enabled : Bool
  syscalls : GoMap Bytes SyscallStats
  deriving DecidableEq, Repr

def newEBPFTracer : EBPFTracer := ⟨true, []⟩

def EBPFTracer.enable (t : EBPFTracer) : EBPFTracer := { t with enabled := true }

def EBPFTracer.disable (t : EBPFTracer) : EBPFTracer := { t with enabled := false }

/-- `TraceSystemCall(name, duration, err)`; `err` is `err != nil`. -/
def EBPFTracer.traceSystemCall (t : EBPFTracer) (name : Bytes) (duration : Int) (err : Bool) :
    EBPFTracer :=
  if !t.enabled then t
  else
    let stats := (t.syscalls.get name).getD SyscallStats.empty
    let stats := { stats with count := stats.count + 1 }
    let d := durationNs duration
    let stats := { stats with totalTime := stats.totalTime + d }
    let stats := if err then { stats with errors := stats.errors + 1 } else stats
    { t with syscalls := t.syscalls.set name (updateSyscallMinMax stats d) }

def EBPFTracer.run (t : EBPFTracer) : List (Bytes × Int × Bool) → EBPFTracer
  | [] => t
  | (name, duration, err) :: calls => (t.traceSystemCall name duration err).run calls

/-- The values recorded since the last `0`, latest first. -/
def sinceZero (xs : List Nat) : List Nat := xs.reverse.takeWhile (· != 0)

theorem sinceZero_append_singleton (xs : List Nat) (d : Nat) :
    sinceZero (xs ++ [d]) = if d = 0 then [] else d :: sinceZero xs := by
  by_cases hd : d = 0 <;> simp [sinceZero, List.takeWhile_cons, hd]

theorem ne_zero_of_mem_sinceZero {xs : List Nat} {x : Nat} (h : x ∈ sinceZero xs) : x ≠ 0 := by
  simpa using List.mem_takeWhile_imp h

/-- What the loops keep for the recorded values `xs`: `mx` is the largest of them (or `0`), and
`mn` the smallest of those recorded since the last `0`, or `0` when there is none. -/
def KeptExtremes (xs : List Nat) (mn mx : Nat) : Prop :=
  (mx = 0 ∨ mx ∈ xs) ∧ (∀ x ∈ xs, x ≤ mx) ∧
    ((mn = 0 ∧ sinceZero xs = []) ∨ (mn ∈ sinceZero xs ∧ ∀ x ∈ sinceZero xs, mn ≤ x))

theorem keptExtremes_nil : KeptExtremes [] 0 0 := ⟨.inl rfl, by simp, .inl ⟨rfl, rfl⟩⟩

theorem lt_iff_toNat_lt (a b : UInt64) : a < b ↔ a.toNat < b.toNat := Iff.rfl

@[simp] theorem minMaxStep_fst_toNat (mn mx d : UInt64) :
    (minMaxStep mn mx d).1.toNat = if mn.toNat = 0 ∨ d.toNat < mn.toNat then d.toNat else mn.toNat := by
  have hz : mn = 0 ↔ mn.toNat = 0 := ⟨fun h => h ▸ rfl, fun h => UInt64.toNat.inj h⟩
  simp only [minMaxStep, hz, lt_iff_toNat_lt]
  split_ifs <;> rfl

@[simp] theorem minMaxStep_snd_toNat (mn mx d : UInt64) :
    (minMaxStep mn mx d).2.toNat = if mx.toNat < d.toNat then d.toNat else mx.toNat := by
  simp only [minMaxStep, gt_iff_lt, lt_iff_toNat_lt]
  split_ifs <;> rfl

theorem KeptExtremes.step {xs : List Nat} {mn mx : Nat} (h : KeptExtremes xs mn mx) (d : Nat) :
    KeptExtremes (xs ++ [d]) (if mn = 0 ∨ d < mn then d else mn) (if mx < d then d else mx) := by
  obtain ⟨hmx, hle, hmn⟩ := h
  refine ⟨?_, ?_, ?_⟩
  · simp only [List.mem_append, List.mem_singleton]
    split_ifs
    exacts [.inr (.inr rfl), hmx.imp_right .inl]
  · simp only [List.mem_append, List.mem_singleton]
    rintro x (hx | rfl) <;> [have := hle x hx; skip] <;> split_ifs <;> omega
  · rw [sinceZero_append_singleton]
    by_cases hd : d = 0
    · -- a recorded `0` resets the minimum to "unset"
      exact .inl ⟨by split_ifs <;> omega, if_pos hd⟩
    · rw [if_neg hd, List.forall_mem_cons]
      rcases hmn with ⟨rfl, hS⟩ | ⟨hin, hmin⟩
      · exact .inr ⟨by simp, by simp, by simp [hS]⟩
      · have hpos := ne_zero_of_mem_sinceZero hin
        refine .inr ⟨?_, by split_ifs <;> omega, fun x hx => ?_⟩
        · split_ifs
          exacts [List.mem_cons_self _ _, List.mem_cons_of_mem _ hin]
        · have := hmin x hx
          split_ifs <;> omega

/-- The values `RecordRequest` and `TraceSystemCall` compare, for the calls on one key. -/
def recorded (key : Bytes) (calls : List (Bytes × Int × Bool)) : List Nat :=
  (calls.filter (fun c => c.1 = key)).map (fun c => (durationNs c.2.1).toNat)

@[simp] theorem recorded_nil (key : Bytes) : recorded key [] = [] := rfl

theorem recorded_cons (key : Bytes) (c : Bytes × Int × Bool) (calls : List (Bytes × Int × Bool)) :
    recorded key (c :: calls) =
      (if c.1 = key then [(durationNs c.2.1).toNat] else []) ++ recorded key calls := by
  by_cases h : c.1 = key <;> simp [recorded, List.filter_cons, h]

section Monitor

variable {pm : PerformanceMonitor} {handler key : Bytes} {duration : Int} {isError : Bool}

/-- The metrics `LoadOrStore` gives for `key`. -/
def PerformanceMonitor.metrics (pm : PerformanceMonitor) (key : Bytes) : HandlerMetrics :=
  (pm.handlers.get key).getD HandlerMetrics.empty

theorem recordRequest_enabled (h : pm.enabled = true) :
    (pm.recordRequest handler duration isError).enabled = true := by
  simp [PerformanceMonitor.recordRequest, h]

theorem recordRequest_metrics_self (key : Bytes) (duration : Int) (isError : Bool) (h : pm.enabled = true) :
    ((pm.recordRequest key duration isError).metrics key).minDuration =
        (minMaxStep (pm.metrics key).minDuration (pm.metrics key).maxDuration (durationNs duration)).1 ∧
      ((pm.recordRequest key duration isError).metrics key).maxDuration =
        (minMaxStep (pm.metrics key).minDuration (pm.metrics key).maxDuration (durationNs duration)).2 := by
  constructor <;> cases isError <;>
    simp [PerformanceMonitor.recordRequest, PerformanceMonitor.metrics, h, updateLatencyBucket, updateMinMax]

theorem recordRequest_metrics_ne (hne : handler ≠ key) :
    (pm.recordRequest handler duration isError).metrics key = pm.metrics key := by
  unfold PerformanceMonitor.recordRequest PerformanceMonitor.metrics
  split
  · rfl
  · simp only [GoMap.get_set_ne _ _ hne]

/-- Over any calls, for any handler: the handler's minimum and maximum are what `KeptExtremes`
says of its recorded durations. -/
theorem run_keptExtremes (calls : List (Bytes × Int × Bool)) (h : pm.enabled = true) {xs : List Nat}
    (hk : KeptExtremes xs (pm.metrics key).minDuration.toNat (pm.metrics key).maxDuration.toNat) :
    KeptExtremes (xs ++ recorded key calls) ((pm.run calls).metrics key).minDuration.toNat
      ((pm.run calls).metrics key).maxDuration.toNat := by
  induction calls generalizing pm xs with
  | nil => simpa [PerformanceMonitor.run] using hk
  | cons c calls ih =>
      obtain ⟨handler, duration, isError⟩ := c
      rw [recorded_cons, ← List.append_assoc]
      apply ih (recordRequest_enabled h)
      by_cases hkey : handler = key
      · subst hkey
        obtain ⟨hmin, hmax⟩ := recordRequest_metrics_self handler duration isError h
        simpa [hmin, hmax] using hk.step (durationNs duration).toNat
      · simpa [hkey, recordRequest_metrics_ne hkey] using hk

theorem newPerformanceMonitor_keptExtremes (calls : List (Bytes × Int × Bool)) (key : Bytes) :
    KeptExtremes (recorded key calls) ((newPerformanceMonitor.run calls).metrics key).minDuration.toNat
      ((newPerformanceMonitor.run calls).metrics key).maxDuration.toNat := by
  have h : KeptExtremes ([] ++ recorded key calls) ((newPerformanceMonitor.run calls).metrics key).minDuration.toNat
      ((newPerformanceMonitor.run calls).metrics key).maxDuration.toNat := run_keptExtremes calls rfl keptExtremes_nil
  rwa [List.nil_append] at h

end Monitor

section Tracer

variable {t : EBPFTracer} {name key : Bytes} {duration : Int} {err : Bool}

def EBPFTracer.stats (t : EBPFTracer) (key : Bytes) : SyscallStats :=
  (t.syscalls.get key).getD SyscallStats.empty

theorem traceSystemCall_enabled (h : t.enabled = true) :
    (t.traceSystemCall name duration err).enabled = true := by
  simp [EBPFTracer.traceSystemCall, h]

theorem traceSystemCall_stats_self (key : Bytes) (duration : Int) (err : Bool) (h : t.enabled = true) :
    ((t.traceSystemCall key duration err).stats key).minTime =
        (minMaxStep (t.stats key).minTime (t.stats key).maxTime (durationNs duration)).1 ∧
      ((t.traceSystemCall key duration err).stats key).maxTime =
        (minMaxStep (t.stats key).minTime (t.stats key).maxTime (durationNs duration)).2 := by
  constructor <;> cases err <;>
    simp [EBPFTracer.traceSystemCall, EBPFTracer.stats, h, updateSyscallMinMax]

theorem traceSystemCall_stats_ne (hne : name ≠ key) :
    (t.traceSystemCall name duration err).stats key = t.stats key := by
  unfold EBPFTracer.traceSystemCall EBPFTracer.stats
  split
  · rfl
  · simp only [GoMap.get_set_ne _ _ hne]

theorem tracer_run_keptExtremes (calls : List (Bytes × Int × Bool)) (h : t.enabled = true) {xs : List Nat}
    (hk : KeptExtremes xs (t.stats key).minTime.toNat (t.stats key).maxTime.toNat) :
    KeptExtremes (xs ++ recorded key calls) ((t.run calls).stats key).minTime.toNat
      ((t.run calls).stats key).maxTime.toNat := by
  induction calls generalizing t xs with
  | nil => simpa [EBPFTracer.run] using hk
  | cons c calls ih =>
      obtain ⟨name, duration, err⟩ := c
      rw [recorded_cons, ← List.append_assoc]
      apply ih (traceSystemCall_enabled h)
      by_cases hkey : name = key
      · subst hkey
        obtain ⟨hmin, hmax⟩ := traceSystemCall_stats_self name duration err h
        simpa [hmin, hmax] using hk.step (durationNs duration).toNat
      · simpa [hkey, traceSystemCall_stats_ne hkey] using hk

theorem newEBPFTracer_keptExtremes (calls : List (Bytes × Int × Bool)) (key : Bytes) :
    KeptExtremes (recorded key calls) ((newEBPFTracer.run calls).stats key).minTime.toNat
      ((newEBPFTracer.run calls).stats key).maxTime.toNat := by
  have h : KeptExtremes ([] ++ recorded key calls) ((newEBPFTracer.run calls).stats key).minTime.toNat
      ((newEBPFTracer.run calls).stats key).maxTime.toNat := tracer_run_keptExtremes calls rfl keptExtremes_nil
  rwa [List.nil_append] at h

end Tracer

/-- For every sequence of calls and every handler or syscall name, the kept maximum is the largest
recorded duration, but the kept minimum is the smallest of those recorded after the last `0`:
`0` doubles as "unset", so a recorded `0` is replaced by the next duration (5 ms, 0, 3 ms keeps
3 ms). -/
theorem recorded_minimum_skips_zero :
    (∀ (calls : List (Bytes × Int × Bool)) (key : Bytes),
      KeptExtremes (recorded key calls) ((newPerformanceMonitor.run calls).metrics key).minDuration.toNat
        ((newPerformanceMonitor.run calls).metrics key).maxDuration.toNat) ∧
    (∀ (calls : List (Bytes × Int × Bool)) (key : Bytes),
      KeptExtremes (recorded key calls) ((newEBPFTracer.run calls).stats key).minTime.toNat
        ((newEBPFTracer.run calls).stats key).maxTime.toNat) ∧
    0 ∈ recorded (lit "h") [(lit "h", 5000000, false), (lit "h", 0, false), (lit "h", 3000000, false)] ∧
    ((newPerformanceMonitor.run [(lit "h", 5000000, false), (lit "h", 0, false), (lit "h", 3000000, false)]).metrics
      (lit "h")).minDuration = 3000000 ∧
    ((newEBPFTracer.run [(lit "read", 5000000, false), (lit "read", 0, false), (lit "read", 3000000, false)]).stats
      (lit "read")).minTime = 3000000 :=
  ⟨newPerformanceMonitor_keptExtremes, newEBPFTracer_keptExtremes, by decide, by decide, by decide⟩

end FastServer.Observability
