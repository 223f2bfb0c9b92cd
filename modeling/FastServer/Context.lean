import Mathlib.Data.List.FinRange
import FastServer.Request
import FastServer.Response

namespace FastServer.Context

open Request Response

/-- The values a handler passes to `JSON`, as far as the framework builds them itself:
integers, strings, string-keyed objects, and any other value of the handler's. -/
inductive Value
  | int (n : Int)
  | str (s : Bytes)
  | object (fields : List (Bytes × Value))
  | other (id : Nat)

/-- `FDContext`. The four inline parameter slots are the Go arrays `[4]string`. -/
structure FDContext where
  fd : Int
  request : Option Request
  paramKeys : Fin 4 → Bytes
  paramValues : Fin 4 → Bytes
  paramCount : Nat
  paramMapOverflow : GoMap Bytes Bytes
  responseBuf : Bytes
  responseHeaders : GoMap Bytes Bytes
  statusCode : Int
  aborted : Bool

/-- A zero `FDContext{}`. -/
def FDContext.empty : FDContext :=
  ⟨0, none, fun _ => [], fun _ => [], 0, [], [], [], 0, false⟩

/-- An `FDContext` together with the bytes written to its fd so far. -/
structure Exchange where
  ctx : FDContext
  sent : Bytes

def FDContext.setParam (c : FDContext) (key value : Bytes) : FDContext :=
  if h : c.paramCount < 4 then
    { c with paramKeys := Function.update c.paramKeys ⟨c.paramCount, h⟩ key,
             paramValues := Function.update c.paramValues ⟨c.paramCount, h⟩ value,
             paramCount := c.paramCount + 1 }
  else { c with paramMapOverflow := c.paramMapOverflow.set key value }

/-- `Param`: the inline slots below `paramCount` first, in order, then the overflow map. -/
def FDContext.param (c : FDContext) (key : Bytes) : Bytes :=
  match (List.finRange 4).find? (fun i => i.val < c.paramCount ∧ c.paramKeys i = key) with
  | some i => c.paramValues i
  | none => (c.paramMapOverflow.get key).getD []

def FDContext.setHeader (c : FDContext) (key value : Bytes) : FDContext :=
  { c with responseHeaders := c.responseHeaders.set key value }

def FDContext.status (c : FDContext) (code : Int) : FDContext := { c with statusCode := code }

def FDContext.abort (c : FDContext) : FDContext := { c with aborted := true }

/-- `FDContext.Reset(fd, req)`: maps emptied, buffer length zero, status 200, not aborted. -/
def FDContext.reset (c : FDContext) (fd : Int) (req : Option Request) : FDContext :=
  { c with fd := fd, request := req, paramCount := 0, paramMapOverflow := [],
           responseHeaders := [], responseBuf := [], statusCode := 200, aborted := false }

/-- What `String`, `JSON`, `Bytes` and `Data` share: build `responseBytes` in `responseBuf` and
write it with `writeResponse`, whose loop retries `EAGAIN` until every byte is out. -/
def Exchange.emit (e : Exchange) (code : Int) (contentType body : Bytes) : Exchange :=
  ⟨{ e.ctx with responseBuf := responseBytes code contentType body },
    e.sent ++ responseBytes code contentType body⟩

def Exchange.string (e : Exchange) (code : Int) (s : Bytes) : Exchange :=
  e.emit code (lit "text/plain") s

/-- What `json.Marshal` gives for `{"code": 500, "message": "Failed to marshal JSON"}`. -/
def marshalFailureBody : Bytes := lit "\x7b\"code\":500,\"message\":\"Failed to marshal JSON\"\x7d"

/-- `JSON(code, v)` with `json.Marshal` as `marshal`; when it fails, `Error(500, …)`. -/
def Exchange.json (marshal : Value → Option Bytes) (e : Exchange) (code : Int) (v : Value) :
    Exchange :=
  match marshal v with
  | some data => e.emit code (lit "application/json") data
  | none => e.emit 500 (lit "application/json") marshalFailureBody

def Exchange.bytes (e : Exchange) (code : Int) (data : Bytes) : Exchange :=
  e.emit code (lit "application/octet-stream") data

def Exchange.data (e : Exchange) (code : Int) (contentType data : Bytes) : Exchange :=
  e.emit code contentType data

def Exchange.error (marshal : Value → Option Bytes) (e : Exchange) (code : Int) (message : Bytes) :
    Exchange :=
  e.json marshal code (.object [(lit "code", .int code), (lit "message", .str message)])

def Exchange.success (marshal : Value → Option Bytes) (e : Exchange) (data : Value) : Exchange :=
  e.json marshal 200 (.object [(lit "code", .int 0), (lit "data", data), (lit "message", .str (lit "success"))])

/-- What a call wrote after `e`: the response of status `code`, `Content-Type` `contentType` and
body `body`, which a client reading the stream delimits into exactly these, whatever follows it. -/
def FramedAs (e e' : Exchange) (code : Int) (contentType body : Bytes) : Prop :=
  e'.sent = e.sent ++ responseBytes code contentType body ∧
    ∀ rest, delimit (responseBytes code contentType body ++ rest) =
      some ([statusLine code, lit "Content-Type: " ++ contentType,
        lit "Content-Length: " ++ appendInt [] body.length], body, rest)

/-- What a call wrote after `e`: one response, which a client reading the stream delimits
exactly (status line, `Content-Type`, a single `Content-Length`, body) whatever follows it. -/
def Framed (e e' : Exchange) : Prop := ∃ code contentType body, FramedAs e e' code contentType body

theorem emit_framedAs (e : Exchange) (code : Int) {contentType : Bytes} (hct : cr ∉ contentType)
    (body : Bytes) : FramedAs e (e.emit code contentType body) code contentType body :=
  ⟨rfl, delimit_responseBytes code hct body⟩

theorem emit_framed (e : Exchange) (code : Int) {contentType : Bytes} (hct : cr ∉ contentType)
    (body : Bytes) : Framed e (e.emit code contentType body) :=
  ⟨code, contentType, body, emit_framedAs e code hct body⟩

theorem json_framed (marshal : Value → Option Bytes) (e : Exchange) (code : Int) (v : Value) :
    Framed e (e.json marshal code v) := by
  unfold Exchange.json
  split <;> exact emit_framed _ _ (by decide) _

/-- Each body emitter of `FDContext` writes one response, which a client delimits into the
status code and body it was given and the emitter's content type: `JSON` writes the marshalled
value, or a 500 when marshalling fails (`Error` and `Success` are `JSON` calls), and `Data` any
content type without a CR in it. -/
theorem fdContext_emitters_framed (marshal : Value → Option Bytes) (e : Exchange) (code : Int)
    {contentType : Bytes} (hct : cr ∉ contentType) (s data : Bytes) (v : Value) :
    FramedAs e (e.string code s) code (lit "text/plain") s ∧
      FramedAs e (e.bytes code data) code (lit "application/octet-stream") data ∧
      FramedAs e (e.data code contentType data) code contentType data ∧
      (∀ body, marshal v = some body → FramedAs e (e.json marshal code v) code (lit "application/json") body) ∧
      (marshal v = none → FramedAs e (e.json marshal code v) 500 (lit "application/json") marshalFailureBody) := by
  refine ⟨emit_framedAs e code (by decide) s, emit_framedAs e code (by decide) data, emit_framedAs e code hct data,
    fun body hv => ?_, fun hv => ?_⟩
  · rw [Exchange.json, hv]
    exact emit_framedAs e code (by decide) body
  · rw [Exchange.json, hv]
    exact emit_framedAs e 500 (by decide) marshalFailureBody

theorem fdContext_emitters_framed_html :
    cr ∉ lit "text/html" ∧
      FramedAs ⟨FDContext.empty, []⟩ ((⟨FDContext.empty, []⟩ : Exchange).string 404 (lit "gone")) 404
          (lit "text/plain") (lit "gone") ∧
        FramedAs ⟨FDContext.empty, []⟩ ((⟨FDContext.empty, []⟩ : Exchange).bytes 404 (lit "gone")) 404
          (lit "application/octet-stream") (lit "gone") ∧
        FramedAs ⟨FDContext.empty, []⟩ ((⟨FDContext.empty, []⟩ : Exchange).data 404 (lit "text/html") (lit "gone"))
          404 (lit "text/html") (lit "gone") ∧
        (∀ body, (fun _ => some (lit "1") : Value → Option Bytes) (.int 1) = some body →
          FramedAs ⟨FDContext.empty, []⟩ ((⟨FDContext.empty, []⟩ : Exchange).json (fun _ => some (lit "1")) 404 (.int 1))
            404 (lit "application/json") body) ∧
        ((fun _ => some (lit "1") : Value → Option Bytes) (.int 1) = none →
          FramedAs ⟨FDContext.empty, []⟩ ((⟨FDContext.empty, []⟩ : Exchange).json (fun _ => some (lit "1")) 404 (.int 1))
            500 (lit "application/json") marshalFailureBody) :=
  ⟨by decide, fdContext_emitters_framed (fun _ => some (lit "1")) ⟨FDContext.empty, []⟩ 404 (by decide)
    (lit "gone") (lit "gone") (.int 1)⟩

/-- The path-parameter fields `FDContext` and `StandardContext` share: four inline slots filled
in order, then the overflow map. Both contexts run the same `SetParam` and `Param` code on them. -/
structure ParamSlots where
  paramKeys : Fin 4 → Bytes
  paramValues : Fin 4 → Bytes
  paramCount : Nat
  paramMapOverflow : GoMap Bytes Bytes

namespace ParamSlots

/-- The inline slot the loop of `Param` stops at: the first below `paramCount` holding `key`. -/
def slotOf (s : ParamSlots) (key : Bytes) : Option (Fin 4) :=
  (List.finRange 4).find? (fun i => i.val < s.paramCount ∧ s.paramKeys i = key)

/-- The map the slots stand for: the inline slot first, then the overflow map. -/
def get? (s : ParamSlots) (key : Bytes) : Option Bytes :=
  match s.slotOf key with
  | some i => some (s.paramValues i)
  | none => s.paramMapOverflow.get key

def setParam (s : ParamSlots) (key value : Bytes) : ParamSlots :=
  if h : s.paramCount < 4 then
    { s with paramKeys := Function.update s.paramKeys ⟨s.paramCount, h⟩ key,
             paramValues := Function.update s.paramValues ⟨s.paramCount, h⟩ value,
             paramCount := s.paramCount + 1 }
  else { s with paramMapOverflow := s.paramMapOverflow.set key value }

/-- `Param`: `""` for a key the map does not hold. -/
def param (s : ParamSlots) (key : Bytes) : Bytes := (s.get? key).getD []

variable {s : ParamSlots} {key value : Bytes}

theorem find?_finRange_eq_some {p : Fin 4 → Bool} {a : Fin 4} (h : ∀ i, p i = true ↔ i = a) :
    (List.finRange 4).find? p = some a := by
  cases hx : (List.finRange 4).find? p with
  | none => exact absurd ((h a).mpr rfl) (List.find?_eq_none.mp hx a (List.mem_finRange a))
  | some x => rw [(h x).mp (List.find?_some hx)]

theorem slotOf_setParam_of_lt (h : s.paramCount < 4) (hfresh : s.slotOf key = none) (k : Bytes) :
    (s.setParam key value).slotOf k = if k = key then some ⟨s.paramCount, h⟩ else s.slotOf k := by
  have hnot : ∀ i : Fin 4, i.val < s.paramCount → s.paramKeys i ≠ key := fun i hi hk =>
    List.find?_eq_none.mp hfresh i (List.mem_finRange i) (by simp [hi, hk])
  simp only [slotOf, setParam, dif_pos h]
  split
  · subst k
    refine find?_finRange_eq_some fun i => ?_
    by_cases hi : i = ⟨s.paramCount, h⟩
    · subst hi; simp
    · have hne : i.val ≠ s.paramCount := fun e => hi (Fin.ext e)
      simp only [Function.update_noteq hi, decide_eq_true_eq, hi, iff_false, not_and]
      exact fun hlt => hnot i (by omega)
  · congr 1
    funext i
    by_cases hi : i = ⟨s.paramCount, h⟩
    · subst hi; simp [Ne.symm ‹k ≠ key›]
    · have hne : i.val ≠ s.paramCount := fun e => hi (Fin.ext e)
      simp only [Function.update_noteq hi]
      congr 1
      exact propext ⟨fun ⟨hlt, hk⟩ => ⟨by omega, hk⟩, fun ⟨hlt, hk⟩ => ⟨by omega, hk⟩⟩

theorem get?_setParam (hfresh : s.get? key = none) :
    (s.setParam key value).get? = Function.update s.get? key (some value) := by
  have hslot : s.slotOf key = none := by
    unfold get? at hfresh; split at hfresh
    · cases hfresh
    · assumption
  have hover : s.paramMapOverflow.get key = none := by simpa [get?, hslot] using hfresh
  funext k
  by_cases h : s.paramCount < 4
  · unfold get?
    rw [slotOf_setParam_of_lt h hslot k]
    by_cases hk : k = key
    · subst hk; simp [setParam, h]
    · simp only [hk, if_false, Function.update_noteq hk]
      simp only [setParam, dif_pos h]
      split
      · rename_i i hi
        have hne : i ≠ ⟨s.paramCount, h⟩ := fun e => by
          have := List.find?_some hi
          simp [e] at this
        simp [Function.update_noteq hne, get?, hi]
      · simp [get?, *]
  · have hslot' : ∀ k, (s.setParam key value).slotOf k = s.slotOf k := fun k => by
      simp [slotOf, setParam, h]
    have hvals : (s.setParam key value).paramValues = s.paramValues := by simp [setParam, h]
    have hover' : (s.setParam key value).paramMapOverflow = s.paramMapOverflow.set key value := by
      simp [setParam, h]
    simp only [get?, hslot', hvals, hover']
    by_cases hk : k = key
    · subst hk; simp [hslot]
    · rw [Function.update_noteq hk, GoMap.get_set_ne _ _ (Ne.symm hk)]
      rfl

theorem get?_foldl_setParam (ps : List (Bytes × Bytes)) (hfresh : ∀ p ∈ ps, s.get? p.1 = none)
    (hnd : (ps.map Prod.fst).Nodup) :
    (∀ p ∈ ps, (ps.foldl (fun s p => s.setParam p.1 p.2) s).get? p.1 = some p.2) ∧
      ∀ k ∉ ps.map Prod.fst, (ps.foldl (fun s p => s.setParam p.1 p.2) s).get? k = s.get? k := by
  induction ps generalizing s with
  | nil => simp
  | cons p ps ih =>
      obtain ⟨hp, hnd⟩ := List.nodup_cons.mp hnd
      have hset : (s.setParam p.1 p.2).get? = Function.update s.get? p.1 (some p.2) :=
        get?_setParam (hfresh p (List.mem_cons_self p ps))
      have hne : ∀ q ∈ ps, q.1 ≠ p.1 := fun q hq e => hp (e ▸ List.mem_map_of_mem Prod.fst hq)
      obtain ⟨ih₁, ih₂⟩ := ih (s := s.setParam p.1 p.2) (fun q hq => by
        rw [hset, Function.update_noteq (hne q hq)]; exact hfresh q (List.mem_cons_of_mem p hq)) hnd
      refine ⟨fun q hq => ?_, fun k hk => ?_⟩
      · rcases List.mem_cons.mp hq with rfl | hq
        · rw [List.foldl_cons, ih₂ _ hp, hset, Function.update_same]
        · exact ih₁ q hq
      · simp only [List.map_cons, List.mem_cons, not_or] at hk
        rw [List.foldl_cons, ih₂ k hk.2, hset, Function.update_noteq hk.1]

/-- No slot is in use and the overflow map is empty. -/
def Empty (s : ParamSlots) : Prop := s.paramCount = 0 ∧ s.paramMapOverflow = []

theorem get?_of_empty (h : s.Empty) (k : Bytes) : s.get? k = none := by
  have hslot : s.slotOf k = none := List.find?_eq_none.mpr fun i _ => by simp [h.1]
  simp [get?, hslot, h.2]

/-- From empty slots, `SetParam` of pairwise distinct keys in any order, on both sides of the
four inline slots, gives a map: `Param` returns each key's value and `""` for every other key. -/
theorem param_foldl_setParam (h : s.Empty) (ps : List (Bytes × Bytes)) (hnd : (ps.map Prod.fst).Nodup) :
    (∀ p ∈ ps, (ps.foldl (fun s p => s.setParam p.1 p.2) s).param p.1 = p.2) ∧
      ∀ k ∉ ps.map Prod.fst, (ps.foldl (fun s p => s.setParam p.1 p.2) s).param k = [] := by
  obtain ⟨h₁, h₂⟩ := get?_foldl_setParam ps (fun p _ => get?_of_empty h p.1) hnd
  exact ⟨fun p hp => by simp [param, h₁ p hp], fun k hk => by simp [param, h₂ k hk, get?_of_empty h]⟩

end ParamSlots

/-- `FDContext`'s parameter fields. -/
def FDContext.paramSlots (c : FDContext) : ParamSlots :=
  ⟨c.paramKeys, c.paramValues, c.paramCount, c.paramMapOverflow⟩

theorem FDContext.paramSlots_setParam (c : FDContext) (key value : Bytes) :
    (c.setParam key value).paramSlots = c.paramSlots.setParam key value := by
  by_cases h : c.paramCount < 4 <;> simp [FDContext.setParam, ParamSlots.setParam, paramSlots, h]

theorem FDContext.param_eq (c : FDContext) (key : Bytes) : c.param key = c.paramSlots.param key := by
  unfold FDContext.param ParamSlots.param ParamSlots.get? ParamSlots.slotOf paramSlots
  cases (List.finRange 4).find? (fun i => decide (i.val < c.paramCount ∧ c.paramKeys i = key)) <;> rfl

theorem FDContext.paramSlots_foldl (c : FDContext) (ps : List (Bytes × Bytes)) :
    (ps.foldl (fun c p => c.setParam p.1 p.2) c).paramSlots =
      ps.foldl (fun s p => s.setParam p.1 p.2) c.paramSlots := by
  induction ps generalizing c with
  | nil => rfl
  | cons p ps ih => simp only [List.foldl_cons, ih, paramSlots_setParam]

/-- `StandardContext` of package http: its parameter fields, the request and the connection
(by identity; `AcquireContext` clears it). -/
structure StandardContext where
  paramKeys : Fin 4 → Bytes
  paramValues : Fin 4 → Bytes
  paramCount : Nat
  paramMapOverflow : GoMap Bytes Bytes
  request : Option Request
  conn : Option Nat

namespace StandardContext

def paramSlots (c : StandardContext) : ParamSlots :=
  ⟨c.paramKeys, c.paramValues, c.paramCount, c.paramMapOverflow⟩

def setParam (c : StandardContext) (key value : Bytes) : StandardContext :=
  let s := c.paramSlots.setParam key value
  { c with paramKeys := s.paramKeys, paramValues := s.paramValues, paramCount := s.paramCount,
           paramMapOverflow := s.paramMapOverflow }

def param (c : StandardContext) (key : Bytes) : Bytes := c.paramSlots.param key

/-- `AcquireContext(fd, req)` on a context `contextPool.Get` returned. -/
def acquireContext (c : StandardContext) (_fd : Int) (req : Option Request) : StandardContext :=
  { c with conn := none, request := req, paramCount := 0, paramMapOverflow := [] }

/-- `AcquireContextForConn(conn, req)`. -/
def acquireContextForConn (c : StandardContext) (conn : Nat) (req : Option Request) : StandardContext :=
  { c with conn := some conn, request := req, paramCount := 0, paramMapOverflow := [] }

/-- `ReleaseContext(ctx)`, before `contextPool.Put`. -/
def releaseContext (c : StandardContext) : StandardContext :=
  { c with request := none, conn := none, paramCount := 0, paramMapOverflow := [] }

theorem paramSlots_foldl (c : StandardContext) (ps : List (Bytes × Bytes)) :
    (ps.foldl (fun c p => c.setParam p.1 p.2) c).paramSlots =
      ps.foldl (fun s p => s.setParam p.1 p.2) c.paramSlots := by
  induction ps generalizing c with
  | nil => rfl
  | cons p ps ih => exact ih _

end StandardContext

/-- `FDContext.Reset` leaves no parameter visible, no response header, an empty response
buffer, status 200 and no abort, whatever the context held. -/
theorem FDContext.reset_fresh (c : FDContext) (fd : Int) (req : Option Request) :
    (∀ k, (c.reset fd req).param k = []) ∧ (c.reset fd req).responseHeaders = [] ∧
      (c.reset fd req).responseBuf = [] ∧ (c.reset fd req).statusCode = 200 ∧ (c.reset fd req).aborted = false :=
  ⟨fun k => by rw [FDContext.param_eq, ParamSlots.param, ParamSlots.get?_of_empty ⟨rfl, rfl⟩]; rfl,
    rfl, rfl, rfl, rfl⟩

/-- Path parameters behave as a map on both sides of the four inline slots: after `Reset` of an
`FDContext`, or `AcquireContext` or `AcquireContextForConn` of any pooled `StandardContext`,
`SetParam` of pairwise distinct keys in any order makes `Param` return each key's value and `""`
for every other key; nothing set before is visible. -/
theorem params_behave_as_map (ps : List (Bytes × Bytes)) (hnd : (ps.map Prod.fst).Nodup)
    (c : FDContext) (fd : Int) (req : Option Request) (sc : StandardContext) (conn : Nat) :
    (∀ p ∈ ps, (ps.foldl (fun c p => c.setParam p.1 p.2) (c.reset fd req)).param p.1 = p.2) ∧
      (∀ k ∉ ps.map Prod.fst, (ps.foldl (fun c p => c.setParam p.1 p.2) (c.reset fd req)).param k = []) ∧
      (∀ p ∈ ps, (ps.foldl (fun c p => c.setParam p.1 p.2) (sc.acquireContext fd req)).param p.1 = p.2) ∧
      (∀ k ∉ ps.map Prod.fst, (ps.foldl (fun c p => c.setParam p.1 p.2) (sc.acquireContext fd req)).param k = []) ∧
      (∀ p ∈ ps, (ps.foldl (fun c p => c.setParam p.1 p.2) (sc.acquireContextForConn conn req)).param p.1 = p.2) ∧
      ∀ k ∉ ps.map Prod.fst,
        (ps.foldl (fun c p => c.setParam p.1 p.2) (sc.acquireContextForConn conn req)).param k = [] := by
  obtain ⟨f₁, f₂⟩ := ParamSlots.param_foldl_setParam (s := (c.reset fd req).paramSlots) ⟨rfl, rfl⟩ ps hnd
  obtain ⟨s₁, s₂⟩ := ParamSlots.param_foldl_setParam (s := (sc.acquireContext fd req).paramSlots) ⟨rfl, rfl⟩ ps hnd
  obtain ⟨t₁, t₂⟩ :=
    ParamSlots.param_foldl_setParam (s := (sc.acquireContextForConn conn req).paramSlots) ⟨rfl, rfl⟩ ps hnd
  simp only [FDContext.param_eq, FDContext.paramSlots_foldl, StandardContext.param,
    StandardContext.paramSlots_foldl]
  exact ⟨f₁, f₂, s₁, s₂, t₁, t₂⟩

/-- Five keys, one past the inline slots, on contexts that held other parameters before. -/
theorem params_behave_as_map_five :
    let ps := [(lit "a", lit "1"), (lit "b", lit "2"), (lit "c", lit "3"), (lit "d", lit "4"), (lit "e", lit "5")]
    let c : FDContext := FDContext.empty.setParam (lit "e") (lit "old")
    let sc : StandardContext := ⟨fun _ => lit "e", fun _ => lit "old", 4, [(lit "f", lit "old")], none, none⟩
    (ps.map Prod.fst).Nodup ∧
      (∀ p ∈ ps, (ps.foldl (fun c p => c.setParam p.1 p.2) (c.reset 3 none)).param p.1 = p.2) ∧
      (∀ k ∉ ps.map Prod.fst, (ps.foldl (fun c p => c.setParam p.1 p.2) (c.reset 3 none)).param k = []) ∧
      (∀ p ∈ ps, (ps.foldl (fun c p => c.setParam p.1 p.2) (sc.acquireContext 3 none)).param p.1 = p.2) ∧
      (∀ k ∉ ps.map Prod.fst, (ps.foldl (fun c p => c.setParam p.1 p.2) (sc.acquireContext 3 none)).param k = []) ∧
      (∀ p ∈ ps, (ps.foldl (fun c p => c.setParam p.1 p.2) (sc.acquireContextForConn 9 none)).param p.1 = p.2) ∧
      ∀ k ∉ ps.map Prod.fst,
        (ps.foldl (fun c p => c.setParam p.1 p.2) (sc.acquireContextForConn 9 none)).param k = [] :=
  ⟨by decide, params_behave_as_map _ (by decide) _ 3 none _ 9⟩

/-- `SetHeader` only fills `responseHeaders`, which no emitter reads: after any sequence of
`SetHeader` calls, each of `String`, `JSON`, `Bytes` and `Data` writes a head of exactly the
status line, `Content-Type` and `Content-Length`, so none of the set headers reaches the wire. -/
theorem set_headers_never_sent (marshal : Value → Option Bytes) (e : Exchange) (hs : List (Bytes × Bytes))
    (code : Int) {contentType : Bytes} (hct : cr ∉ contentType) (s data : Bytes) (v : Value) :
    let e' : Exchange := { e with ctx := hs.foldl (fun c h => c.setHeader h.1 h.2) e.ctx }
    Framed e (e'.string code s) ∧ Framed e (e'.json marshal code v) ∧ Framed e (e'.bytes code data) ∧
      Framed e (e'.data code contentType data) :=
  ⟨emit_framed _ code (by decide) s, json_framed marshal _ code v, emit_framed _ code (by decide) data,
    emit_framed _ code hct data⟩

/-- The `RequestID` middleware's header on a reset context, then `String(200, "ok")`. -/
theorem set_headers_never_sent_request_id :
    cr ∉ lit "text/plain" ∧
      let e' : Exchange := { (⟨FDContext.empty.reset 7 none, []⟩ : Exchange) with
        ctx := [(lit "X-Request-ID", lit "1")].foldl (fun c h => c.setHeader h.1 h.2) (FDContext.empty.reset 7 none) }
      Framed ⟨FDContext.empty.reset 7 none, []⟩ (e'.string 200 (lit "ok")) ∧
        Framed ⟨FDContext.empty.reset 7 none, []⟩ (e'.json (fun _ => none) 200 (.int 1)) ∧
        Framed ⟨FDContext.empty.reset 7 none, []⟩ (e'.bytes 200 (lit "ok")) ∧
        Framed ⟨FDContext.empty.reset 7 none, []⟩ (e'.data 200 (lit "text/plain") (lit "ok")) :=
  ⟨by decide, set_headers_never_sent (fun _ => none) ⟨FDContext.empty.reset 7 none, []⟩
    [(lit "X-Request-ID", lit "1")] 200 (by decide) (lit "ok") (lit "ok") (.int 1)⟩

end FastServer.Context
