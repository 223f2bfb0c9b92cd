import FastServer.RpcServer

namespace FastServer.Rpc

open Protocol

variable {T V : Type}

/-- The errors a call can end with. -/
inductive CallError
  /-- `ErrClientClosed` -/
  | clientClosed
  /-- `fmt.Errorf("encode args error: %w", err)` -/
  | encodeArgs (e : Bytes)
  /-- `fmt.Errorf("decode reply error: %w", err)` -/
  | decodeReply (e : Bytes)
  /-- `errors.New(string(frame.Payload))` of an error frame -/
  | remote (text : Bytes)
  /-- `fmt.Errorf("unexpected frame type: %d", frame.Type)` -/
  | unexpectedType (t : UInt8)
  deriving DecidableEq, Repr

/-- A `Call`: what it asks for, what the client has written into `Reply` and `Error`, and how
many times `done` has run. `ping` marks the call `Ping` makes, and `id` is the request ID that
`Go` or `Ping` gave it (0 until then). -/
structure Call (T V : Type) where
  service : Bytes
  method : Bytes
  args : Option V
  replyTo : Option T
  reply : Option V
  error : Option CallError
  done : Nat
  ping : Bool
  id : UInt32

/-- The call `Client.Call` makes. -/
def Call.new (service method : Bytes) (args : Option V) (replyTo : Option T) : Call T V :=
  ⟨service, method, args, replyTo, none, none, 0, false, 0⟩

@[simp] theorem Call.new_args (service method : Bytes) (args : Option V) (replyTo : Option T) :
    (Call.new service method args replyTo).args = args := rfl

/-- The call `Ping` makes: `&Call{Done: …}`. -/
def pingCall : Call T V := ⟨[], [], none, none, none, none, 0, true, 0⟩

@[simp] theorem pingCall_done : (pingCall : Call T V).done = 0 := rfl

/-- `call.Error = e; call.done()`. -/
def Call.fail (call : Call T V) (e : CallError) : Call T V := { call with error := some e, done := call.done + 1 }

/-- The client: the counter `reqID`, the `pending` map, the `closed` flag, every call given to
`Go` or made by `Ping` (by index), and the bytes written to the connection. -/
structure Client (T V : Type) where
  reqID : UInt32
  pending : GoMap UInt32 Nat
  closed : Bool
  calls : List (Call T V)
  sent : Bytes

def newClient : Client T V := ⟨0, [], false, [], []⟩

/-- The request frame `Go` sends. -/
def requestFrame (meta : MetaCodec) (call : Call T V) (id : UInt32) (payload : Bytes) : Frame :=
  { newFrame typeRequest id with metadata := meta.marshal call.service call.method, payload := payload }

section Ops

variable (codec : Codec T V) (meta : MetaCodec)

/-- `Go` made by one goroutine without interruption: a closed client fails the call; otherwise
the call gets the next request ID and is stored as pending, and its frame is sent, unless its
arguments do not encode. `Client.goStep` below takes it step by step, as the source does
(`goRun_eq_go`). -/
def Client.go (c : Client T V) (call : Call T V) : Client T V :=
  if c.closed then { c with calls := c.calls ++ [call.fail .clientClosed] }
  else
    let id := c.reqID + 1
    let call := { call with id := id }
    match codec.encode call.args with
    | .error e =>
        { c with reqID := id, pending := (c.pending.set id c.calls.length).delete id,
                 calls := c.calls ++ [call.fail (.encodeArgs e)] }
    | .ok payload =>
        { c with reqID := id, pending := c.pending.set id c.calls.length, calls := c.calls ++ [call],
                 sent := c.sent ++ (requestFrame meta call id payload).encode }

/-- What `handleFrame` writes into the call a frame answers, then `call.done()`. -/
def Call.receive (call : Call T V) (frame : Frame) : Call T V :=
  let call : Call T V :=
    if frame.type = typeResponse then
      match codec.decode call.replyTo frame.payload with
      | .ok v => { call with reply := some v }
      | .error e => { call with error := some (.decodeReply e) }
    else if frame.type = typeError then { call with error := some (.remote frame.payload) }
    else if frame.type = typePong then call
    else { call with error := some (.unexpectedType frame.type) }
  { call with done := call.done + 1 }

/-- `handleFrame`: `LoadAndDelete` of the frame's request ID; a frame nobody waits for is only
logged. -/
def Client.handleFrame (c : Client T V) (frame : Frame) : Client T V :=
  match c.pending.get frame.requestID with
  | none => c
  | some i => { c with pending := c.pending.delete frame.requestID, calls := c.calls.modify (·.receive codec frame) i }

/-- `Close`, once: the client is marked closed and every pending call fails, as one step. -/
def Client.close (c : Client T V) : Client T V :=
  if c.closed then c
  else { c with closed := true, pending := [],
                calls := c.pending.foldl (fun calls e => calls.modify (·.fail .clientClosed) e.2) c.calls }

/-- `Ping`: a ping call stored under the next request ID, and a ping frame sent. -/
def Client.ping (c : Client T V) : Client T V :=
  if c.closed then c
  else
    let id := c.reqID + 1
    { c with reqID := id, pending := c.pending.set id c.calls.length, calls := c.calls ++ [{ pingCall with id := id }],
             sent := c.sent ++ (newFrame typePing id).encode }

/-- The `i`-th call, a ping, gives up waiting and deletes its request ID. -/
def Client.pingTimeout (c : Client T V) (i : Nat) : Client T V :=
  match c.calls[i]? with
  | some call => if call.ping then { c with pending := c.pending.delete call.id } else c
  | none => c

/-- What can happen to a client: a `Call`, a `Ping`, a ping's timeout, a frame read by the
receive loop, a `Close`. -/
inductive Op (T V : Type)
  | call (service method : Bytes) (args : Option V) (replyTo : Option T)
  | ping
  | pingTimeout (i : Nat)
  | recv (frame : Frame)
  | close

def Client.step (c : Client T V) : Op T V → Client T V
  | .call s m a r => c.go codec meta (Call.new s m a r)
  | .ping => c.ping
  | .pingTimeout i => c.pingTimeout i
  | .recv frame => c.handleFrame codec frame
  | .close => c.close

def Client.run (c : Client T V) (ops : List (Op T V)) : Client T V := ops.foldl (Client.step codec meta) c

/-- Where a goroutine is in `Go`, on the call at index `k` of `calls`: at the closed check under
`c.mu`, at `reqID.Add(1)`, at `pending.Store`, at the encoding of the arguments, or at `send`
with the frame it built. `c.mu` is released between them. -/
inductive GoPc
  | idle
  | check (k : Nat)
  | add (k : Nat)
  | store (k : Nat) (id : UInt32)
  | encode (k : Nat) (id : UInt32)
  | send (k : Nat) (id : UInt32) (frame : Frame)
  deriving DecidableEq, Repr

/-- One step of `Go` (client.go:97-143). A failed `send` (client.go:146) is `ErrClientClosed`. -/
def Client.goStep (c : Client T V) : GoPc → Client T V × GoPc
  | .idle => (c, .idle)
  | .check k =>
      if c.closed then ({ c with calls := c.calls.modify (·.fail .clientClosed) k }, .idle) else (c, .add k)
  | .add k =>
      ({ c with reqID := c.reqID + 1, calls := c.calls.modify (fun call => { call with id := c.reqID + 1 }) k },
        .store k (c.reqID + 1))
  | .store k id => ({ c with pending := c.pending.set id k }, .encode k id)
  | .encode k id =>
      match c.calls[k]? with
      | none => (c, .idle)
      | some call =>
          match codec.encode call.args with
          | .error e =>
              ({ c with pending := c.pending.delete id, calls := c.calls.modify (·.fail (.encodeArgs e)) k }, .idle)
          | .ok payload => (c, .send k id (requestFrame meta call id payload))
  | .send k id frame =>
      if c.closed then
        ({ c with pending := c.pending.delete id, calls := c.calls.modify (·.fail .clientClosed) k }, .idle)
      else ({ c with sent := c.sent ++ frame.encode }, .idle)

/-- `fuel` steps of one goroutine in `Go`. -/
def Client.goRun : Nat → Client T V → GoPc → Client T V × GoPc
  | 0, c, pc => (c, pc)
  | fuel + 1, c, pc => (c.goStep codec meta pc).1.goRun fuel (c.goStep codec meta pc).2

/-- The client with its caller goroutines, each idle or inside `Go`. `Ping`, the receive loop's
`handleFrame` and `Close` stay single steps. -/
structure Conc (T V : Type) where
  client : Client T V
  goers : List GoPc

/-- The moves: a new caller goroutine, an idle one calling `Go` with a new call, the next step of
one inside `Go`, and the other operations. -/
inductive ConcOp (T V : Type)
  | spawn
  | call (g : Nat) (service method : Bytes) (args : Option V) (replyTo : Option T)
  | goStep (g : Nat)
  | ping
  | pingTimeout (i : Nat)
  | recv (frame : Frame)
  | close

def Conc.step (s : Conc T V) : ConcOp T V → Conc T V
  | .spawn => { s with goers := s.goers ++ [.idle] }
  | .call g sv m a r =>
      if s.goers[g]? = some .idle then
        ⟨{ s.client with calls := s.client.calls ++ [Call.new sv m a r] }, s.goers.set g (.check s.client.calls.length)⟩
      else s
  | .goStep g =>
      match s.goers[g]? with
      | some pc => ⟨(s.client.goStep codec meta pc).1, s.goers.set g (s.client.goStep codec meta pc).2⟩
      | none => s
  | .ping => { s with client := s.client.ping }
  | .pingTimeout i => { s with client := s.client.pingTimeout i }
  | .recv frame => { s with client := s.client.handleFrame codec frame }
  | .close => { s with client := s.client.close }

def Conc.run (s : Conc T V) (ops : List (ConcOp T V)) : Conc T V := ops.foldl (Conc.step codec meta) s

end Ops

section Counter

variable (codec : Codec T V) (meta : MetaCodec)

theorem uint32_ofNat_inj {a b : Nat} (ha : a < 2 ^ 32) (hb : b < 2 ^ 32) (h : UInt32.ofNat a = UInt32.ofNat b) :
    a = b := by
  have := congrArg UInt32.toNat h
  rwa [UInt32.toNat_ofNat_of_lt (by unfold UInt32.size; omega),
    UInt32.toNat_ofNat_of_lt (by unfold UInt32.size; omega)] at this

theorem go_of_open {c : Client T V} (hc : c.closed = false) (call : Call T V) :
    c.go codec meta call =
      match codec.encode call.args with
      | .error e =>
          { c with reqID := c.reqID + 1, pending := (c.pending.set (c.reqID + 1) c.calls.length).delete (c.reqID + 1),
                   calls := c.calls ++ [{ call with id := c.reqID + 1 }.fail (.encodeArgs e)] }
      | .ok payload =>
          { c with reqID := c.reqID + 1, pending := c.pending.set (c.reqID + 1) c.calls.length,
                   calls := c.calls ++ [{ call with id := c.reqID + 1 }],
                   sent := c.sent ++ (requestFrame meta { call with id := c.reqID + 1 } (c.reqID + 1) payload).encode } := by
  rw [Client.go, if_neg (by simp [hc])]

theorem modify_concat {α : Type} (f : α → α) (l : List α) (x : α) : (l ++ [x]).modify f l.length = l ++ [f x] := by
  induction l with
  | nil => rfl
  | cons a l ih => simp [ih]

/-- `Go` run by one goroutine without interruption, step by step as the source runs it, is
`Client.go`. -/
theorem goRun_eq_go (c : Client T V) (call : Call T V) :
    Client.goRun codec meta 5 { c with calls := c.calls ++ [call] } (.check c.calls.length) = (c.go codec meta call, .idle) := by
  cases hc : c.closed
  · have hk : ((c.calls ++ [call]).modify (fun call => { call with id := c.reqID + 1 }) c.calls.length)[c.calls.length]? =
        some { call with id := c.reqID + 1 } := by
      rw [modify_concat]
      simp
    rw [go_of_open codec meta hc]
    cases henc : codec.encode call.args <;>
      simp [Client.goRun, Client.goStep, hc, hk, henc, modify_concat, List.modify_modify_eq]
  · simp [Client.goRun, Client.goStep, Client.go, hc, modify_concat]

theorem toNat_add_one {a : UInt32} (h : a.toNat + 1 < 2 ^ 32) : (a + 1).toNat = a.toNat + 1 := by
  have : (a + 1).toNat = (a.toNat + 1) % 2 ^ 32 := by simp [UInt32.toNat, UInt32.add_def]
  rw [this, Nat.mod_eq_of_lt h]

end Counter

/-- The call a goroutine inside `Go` holds before its `pending.Store`. -/
def GoPc.before : GoPc → Option Nat
  | .check k | .add k | .store k _ => some k
  | _ => none

section Once

variable (codec : Codec T V) (meta : MetaCodec)

theorem map_done_modify {f : Call T V → Call T V} (hf : ∀ call, (f call).done = call.done) :
    ∀ (l : List (Call T V)) (k : Nat), (l.modify f k).map Call.done = l.map Call.done
  | [], 0 | [], _ + 1 => rfl
  | _ :: _, 0 => by simp [hf]
  | _ :: l, k + 1 => by simp [map_done_modify hf l k]

theorem Call.receive_done (call : Call T V) (frame : Frame) : (call.receive codec frame).done = call.done + 1 := by
  unfold Call.receive
  split_ifs <;> (try split) <;> rfl

theorem map_done_receive (frame : Frame) :
    ∀ (l : List (Call T V)) (k : Nat), (l.modify (·.receive codec frame) k).map Call.done = (l.map Call.done).modify (· + 1) k
  | [], 0 | [], _ + 1 => rfl
  | _ :: _, 0 => by simp [Call.receive_done]
  | _ :: l, k + 1 => by simp [map_done_receive frame l k]

theorem held_set {goers : List GoPc} {g : Nat} {pc : GoPc} (hg : goers[g]? = some pc) (pc' : GoPc) (g' : Nat) :
    (goers.set g pc')[g']?.bind GoPc.before = if g = g' then pc'.before else goers[g']?.bind GoPc.before := by
  rw [List.getElem?_set]
  split_ifs with h hlt
  · rfl
  · exact absurd (List.getElem?_eq_some_iff.mp hg).1 hlt
  · rfl

/-- Why no call completes twice while the client stays open: `done` is at most one; a pending
request ID names a call not done, and no two IDs name the same call; a goroutine inside `Go`
before its `Store` holds a call not done and not pending, and no other goroutine holds it. -/
structure OnceInv (s : Conc T V) : Prop where
  open_ : s.client.closed = false
  done_le : ∀ d ∈ s.client.calls.map Call.done, d ≤ 1
  pending_fresh : ∀ id k, s.client.pending.get id = some k → (s.client.calls.map Call.done)[k]? = some 0
  pending_inj : ∀ id id' k, s.client.pending.get id = some k → s.client.pending.get id' = some k → id = id'
  held_inj : ∀ g g' k : Nat, s.goers[g]?.bind GoPc.before = some k → s.goers[g']?.bind GoPc.before = some k → g = g'
  held_fresh : ∀ g k : Nat, s.goers[g]?.bind GoPc.before = some k →
    (s.client.calls.map Call.done)[k]? = some 0 ∧ ∀ id, s.client.pending.get id ≠ some k

namespace OnceInv

variable {s : Conc T V}

theorem lt_of_done {ds : List Nat} {k : Nat} (h : ds[k]? = some 0) : k < ds.length :=
  (List.getElem?_eq_some_iff.mp h).1

/-- A move that changes neither the calls' `done` counts, the pending map nor what the
goroutines hold. -/
theorem of_same (h : OnceInv s) {s' : Conc T V} (hc : s'.client.closed = s.client.closed)
    (hd : s'.client.calls.map Call.done = s.client.calls.map Call.done) (hp : s'.client.pending.get = s.client.pending.get)
    (hg : ∀ g : Nat, s'.goers[g]?.bind GoPc.before = s.goers[g]?.bind GoPc.before) : OnceInv s' :=
  ⟨hc.trans h.open_, hd ▸ h.done_le, hd ▸ hp ▸ h.pending_fresh, hp ▸ h.pending_inj,
    fun g g' k => by rw [hg, hg]; exact h.held_inj g g' k, fun g k => by rw [hg, hd, hp]; exact h.held_fresh g k⟩

/-- Deleting a request ID from the pending map. -/
theorem delete (h : OnceInv s) (id : UInt32) : OnceInv { s with client := { s.client with pending := s.client.pending.delete id } } := by
  have hget : ∀ j k, (s.client.pending.delete id).get j = some k → s.client.pending.get j = some k :=
    fun _ _ hj => (GoMap.get_delete_eq_some hj).2
  exact ⟨h.open_, h.done_le, fun j k hj => h.pending_fresh j k (hget j k hj),
    fun j j' k hj hj' => h.pending_inj j j' k (hget j k hj) (hget j' k hj'), h.held_inj,
    fun g k hk => ⟨(h.held_fresh g k hk).1, fun j hj => (h.held_fresh g k hk).2 j (hget j k hj)⟩⟩

theorem spawn (h : OnceInv s) : OnceInv (s.step codec meta .spawn) :=
  h.of_same rfl rfl rfl fun g => by
    show (s.goers ++ [GoPc.idle])[g]?.bind GoPc.before = _
    by_cases hg : g < s.goers.length
    · rw [List.getElem?_append_left hg]
    · have hnone : s.goers[g]? = none := List.getElem?_eq_none (by omega)
      rw [List.getElem?_append_right (by omega), hnone]
      cases g - s.goers.length <;> rfl

theorem call (h : OnceInv s) {g : Nat} (hg : s.goers[g]? = some .idle) (sv m : Bytes) (a : Option V) (r : Option T) :
    OnceInv (s.step codec meta (.call g sv m a r)) := by
  have hn : ∀ k, (s.client.calls.map Call.done)[k]? = some 0 → k ≠ s.client.calls.length := fun k hk =>
    Nat.ne_of_lt (by simpa using lt_of_done hk)
  simp only [Conc.step, hg, if_true]
  refine ⟨h.open_, ?_, fun id k hk => ?_, h.pending_inj, fun g₁ g₂ k h₁ h₂ => ?_, fun g₁ k h₁ => ?_⟩
  · intro d hd
    rw [List.map_append, List.mem_append] at hd
    rcases hd with hd | hd
    · exact h.done_le d hd
    · simp [Call.new] at hd
      omega
  · have := h.pending_fresh id k hk
    simpa [List.getElem?_append_left (lt_of_done this)] using this
  · have fresh : ∀ g', s.goers[g']?.bind GoPc.before ≠ some s.client.calls.length := fun g' hg' =>
      hn _ (h.held_fresh g' _ hg').1 rfl
    rw [held_set hg] at h₁ h₂
    split_ifs at h₁ h₂ with e₁ e₂ e₂
    · exact e₁.symm.trans e₂
    · cases h₁
      exact absurd h₂ (fresh g₂)
    · cases h₂
      exact absurd h₁ (fresh g₁)
    · exact h.held_inj g₁ g₂ k h₁ h₂
  · rw [held_set hg] at h₁
    split_ifs at h₁ with e₁
    · simp only [GoPc.before, Option.some.injEq] at h₁
      subst h₁
      refine ⟨by simp [Call.new], fun id hid => hn _ (h.pending_fresh id _ hid) rfl⟩
    · obtain ⟨hd, hp⟩ := h.held_fresh g₁ k h₁
      exact ⟨by simpa [List.getElem?_append_left (lt_of_done hd)] using hd, hp⟩

theorem held_same {goers : List GoPc} {g : Nat} {pc pc' : GoPc} (hg : goers[g]? = some pc)
    (hpc : pc'.before = pc.before) (g' : Nat) :
    (goers.set g pc')[g']?.bind GoPc.before = goers[g']?.bind GoPc.before := by
  rw [held_set hg]
  split_ifs with e
  · subst e
    rw [hg]
    exact hpc
  · rfl

/-- The `pending.Store` of `Go`: the call it holds becomes pending under its request ID, which
may replace the call stored under that ID before the counter wrapped. -/
theorem store (h : OnceInv s) {g k : Nat} {id : UInt32} (hg : s.goers[g]? = some (.store k id)) :
    OnceInv ⟨{ s.client with pending := s.client.pending.set id k }, s.goers.set g (.encode k id)⟩ := by
  have hk : s.goers[g]?.bind GoPc.before = some k := by rw [hg]; rfl
  obtain ⟨hdk, hpk⟩ := h.held_fresh g k hk
  refine ⟨h.open_, h.done_le, fun j k' hj => ?_, fun j j' k' hj hj' => ?_, fun g₁ g₂ k' h₁ h₂ => ?_,
    fun g₁ k' h₁ => ?_⟩
  · rcases GoMap.get_set_eq_some hj with ⟨-, rfl⟩ | ⟨-, hj⟩
    · exact hdk
    · exact h.pending_fresh j k' hj
  · exact GoMap.set_inj h.pending_inj hpk j j' k' hj hj'
  · rw [held_set hg] at h₁ h₂
    split_ifs at h₁ h₂
    · cases h₁
    · cases h₁
    · cases h₂
    · exact h.held_inj g₁ g₂ k' h₁ h₂
  · rw [held_set hg] at h₁
    split_ifs at h₁ with e₁
    · cases h₁
    · obtain ⟨hd, hp⟩ := h.held_fresh g₁ k' h₁
      refine ⟨hd, fun j hj => ?_⟩
      rcases GoMap.get_set_eq_some hj with ⟨-, ek⟩ | ⟨-, hj⟩
      · exact e₁ (h.held_inj g g₁ k hk (ek ▸ h₁))
      · exact hp j hj

/-- A step of a goroutine inside `Go`. Only its `Store` changes what the invariant reads, as long
as the client stays open and the arguments encode. -/
theorem goStep (h : OnceInv s) (henc : ∀ a, ∃ payload, codec.encode a = .ok payload) (g : Nat) :
    OnceInv (s.step codec meta (.goStep g)) := by
  simp only [Conc.step]
  split
  · rename_i pc hg
    cases pc with
    | idle => exact h.of_same rfl rfl rfl (held_same hg rfl)
    | check k =>
        simp only [Client.goStep, h.open_, Bool.false_eq_true, if_false]
        exact h.of_same rfl rfl rfl (held_same hg rfl)
    | add k =>
        simp only [Client.goStep]
        exact h.of_same rfl (map_done_modify (by intro; rfl) _ _) rfl (held_same hg rfl)
    | store k id => exact h.store hg
    | encode k id =>
        simp only [Client.goStep]
        split
        · exact h.of_same rfl rfl rfl (held_same hg rfl)
        · rename_i call _
          obtain ⟨payload, hp⟩ := henc call.args
          simp only [hp]
          exact h.of_same rfl rfl rfl (held_same hg rfl)
    | send k id frame =>
        simp only [Client.goStep, h.open_, Bool.false_eq_true, if_false]
        exact h.of_same h.open_.symm rfl rfl (held_same hg rfl)
  · exact h

theorem ping (h : OnceInv s) : OnceInv (s.step codec meta .ping) := by
  have hlt : ∀ k, (s.client.calls.map Call.done)[k]? = some 0 → k < s.client.calls.length := fun k hk => by
    simpa using lt_of_done hk
  have hds : ∀ k, (s.client.calls.map Call.done)[k]? = some 0 → (s.client.calls.map Call.done ++ [0])[k]? = some 0 :=
    fun k hk => by rw [List.getElem?_append_left (by simpa using hlt k hk)]; exact hk
  simp only [Conc.step, Client.ping, h.open_, Bool.false_eq_true, if_false]
  refine ⟨rfl, ?_, fun j k hj => ?_, fun j j' k hj hj' => ?_, h.held_inj, fun g k hk => ?_⟩
  · simp only [List.map_append, List.map_singleton, pingCall_done, List.mem_append, List.mem_singleton]
    rintro d (hd | rfl)
    · exact h.done_le d hd
    · exact Nat.zero_le 1
  · simp only [List.map_append, List.map_singleton, pingCall_done]
    rcases GoMap.get_set_eq_some hj with ⟨-, rfl⟩ | ⟨-, hj⟩
    · simp
    · exact hds k (h.pending_fresh j k hj)
  · exact GoMap.set_inj h.pending_inj (fun j' hj' => Nat.lt_irrefl _ (hlt _ (h.pending_fresh j' _ hj'))) j j' k hj hj'
  · obtain ⟨hd, hp⟩ := h.held_fresh g k hk
    simp only [List.map_append, List.map_singleton, pingCall_done]
    refine ⟨hds k hd, fun j hj => ?_⟩
    rcases GoMap.get_set_eq_some hj with ⟨-, ek⟩ | ⟨-, hj⟩
    · exact absurd (hlt k hd) (by omega)
    · exact hp j hj

theorem pingTimeout (h : OnceInv s) (i : Nat) : OnceInv (s.step codec meta (.pingTimeout i)) := by
  simp only [Conc.step, Client.pingTimeout]
  split
  · split
    · exact h.delete _
    · exact h
  · exact h

theorem modify_add_one_eq_set {ds : List Nat} {i : Nat} (h : ds[i]? = some 0) : ds.modify (· + 1) i = ds.set i 1 :=
  List.ext_getElem? fun j => by
    rw [List.getElem?_modify, List.getElem?_set]
    by_cases hij : i = j
    · subst hij
      simp [h, (List.getElem?_eq_some_iff.mp h).1]
    · simp [hij]

/-- `handleFrame`: the `LoadAndDelete` takes the call pending under the frame's ID, if any, out of
the map, so it completes once. -/
theorem recv (h : OnceInv s) (frame : Frame) : OnceInv (s.step codec meta (.recv frame)) := by
  simp only [Conc.step, Client.handleFrame]
  split
  · exact h
  · rename_i i hi
    have hds : (s.client.calls.modify (·.receive codec frame) i).map Call.done = (s.client.calls.map Call.done).set i 1 := by
      rw [map_done_receive, modify_add_one_eq_set (h.pending_fresh _ i hi)]
    refine ⟨h.open_, ?_, fun j k hj => ?_, fun j j' k hj hj' => ?_, h.held_inj, fun g k hk => ?_⟩
    · rw [hds]
      intro d hd
      rcases List.mem_or_eq_of_mem_set hd with hd | rfl
      · exact h.done_le d hd
      · exact le_rfl
    · obtain ⟨hjne, hj⟩ := GoMap.get_delete_eq_some hj
      have hki : i ≠ k := fun e => hjne (h.pending_inj j _ i (e ▸ hj) hi)
      rw [hds, List.getElem?_set_ne hki]
      exact h.pending_fresh j k hj
    · exact h.pending_inj j j' k (GoMap.get_delete_eq_some hj).2 (GoMap.get_delete_eq_some hj').2
    · obtain ⟨hd, hp⟩ := h.held_fresh g k hk
      have hki : i ≠ k := fun e => hp _ (e ▸ hi)
      exact ⟨by rw [hds, List.getElem?_set_ne hki]; exact hd, fun j hj => hp j (GoMap.get_delete_eq_some hj).2⟩

theorem step (h : OnceInv s) (henc : ∀ a, ∃ payload, codec.encode a = .ok payload) {op : ConcOp T V}
    (hop : op ≠ .close) : OnceInv (s.step codec meta op) := by
  cases op with
  | spawn => exact h.spawn codec meta
  | call g sv m a r =>
      by_cases hg : s.goers[g]? = some .idle
      · exact h.call codec meta hg sv m a r
      · simp only [Conc.step, hg, if_false]
        exact h
  | goStep g => exact h.goStep codec meta henc g
  | ping => exact h.ping codec meta
  | pingTimeout i => exact h.pingTimeout codec meta i
  | recv frame => exact h.recv codec meta frame
  | close => exact absurd rfl hop

theorem run (h : OnceInv s) (henc : ∀ a, ∃ payload, codec.encode a = .ok payload) {ops : List (ConcOp T V)}
    (hops : ∀ op ∈ ops, op ≠ .close) : OnceInv (s.run codec meta ops) := by
  induction ops generalizing s with
  | nil => exact h
  | cons op ops ih =>
      exact ih (h.step codec meta henc (hops op (List.mem_cons_self op ops)))
        fun op' hop' => hops op' (List.mem_cons_of_mem op hop')

end OnceInv

end Once

/-- A request of `Client.Call`. -/
structure Request (T V : Type) where
  service : Bytes
  method : Bytes
  args : Option V
  replyTo : Option T

/-- The `Client.Call` that makes the request. -/
def Request.op (r : Request T V) : Op T V := .call r.service r.method r.args r.replyTo

/-- The request as the `k`-th call, with request ID `k + 1`. -/
def Request.callAt (r : Request T V) (k : Nat) : Call T V :=
  { Call.new r.service r.method r.args r.replyTo with id := UInt32.ofNat (k + 1) }

/-- The order of the client's two goroutines: `true` is the next `Call`, `false` the receive
loop reading the next answer. -/
def interleave {α : Type} : List Bool → List α → List α → List α
  | [], _, _ => []
  | true :: s, x :: xs, ys => x :: interleave s xs ys
  | true :: s, [], ys => interleave s [] ys
  | false :: s, xs, y :: ys => y :: interleave s xs ys
  | false :: s, xs, [] => interleave s xs []

section Exchange

variable (reg : ServiceRegistry T V) (codec : Codec T V) (meta : MetaCodec) (rf : Reflect T V)

/-- The frames `Go` sends for the requests from the `k`-th on, with the index of each: those of
the requests whose arguments encode. -/
def sentFramesFrom (k : Nat) : List (Request T V) → List (Nat × Frame)
  | [] => []
  | r :: rs =>
      match codec.encode r.args with
      | .ok payload => (k, requestFrame meta (r.callAt k) (UInt32.ofNat (k + 1)) payload) :: sentFramesFrom (k + 1) rs
      | .error _ => sentFramesFrom (k + 1) rs

def sentFrames (rs : List (Request T V)) : List (Nat × Frame) := sentFramesFrom codec meta 0 rs

/-- The `k`-th call, once the receive loop has read the answer to it if `answered`. -/
def callAfter (answered : Bool) (k : Nat) (r : Request T V) : Call T V :=
  match codec.encode r.args with
  | .error e => (r.callAt k).fail (.encodeArgs e)
  | .ok payload =>
      if answered then
        (r.callAt k).receive codec
          (handleRequest reg codec meta rf (requestFrame meta (r.callAt k) (UInt32.ofNat (k + 1)) payload))
      else r.callAt k

/-- A schedule the two goroutines can follow: it makes only the calls there are, reads only
answers to requests already sent, and ends with every call made and every answer read. -/
def scheduleOk (rs : List (Request T V)) : List Bool → Nat → Nat → Bool
  | [], G, R => G == rs.length && R == (sentFrames codec meta rs).length
  | true :: s, G, R => decide (G < rs.length) && scheduleOk rs s (G + 1) R
  | false :: s, G, R => decide (R < (sentFrames codec meta (rs.take G)).length) && scheduleOk rs s G (R + 1)

/-- The client after `G` calls and `R` answers read. -/
structure Tracks (rs : List (Request T V)) (G R : Nat) (c : Client T V) : Prop where
  reqID : c.reqID.toNat = G
  open_ : c.closed = false
  calls : c.calls = (rs.take G).mapIdx fun k r =>
    callAfter reg codec meta rf (decide (k ∈ ((sentFrames codec meta (rs.take G)).take R).map Prod.fst)) k r
  pending : c.pending.get = fun id =>
    (((sentFrames codec meta (rs.take G)).drop R).find? (fun p => p.2.requestID = id)).map Prod.fst
  read : R ≤ (sentFrames codec meta (rs.take G)).length
  sent : c.sent = ((sentFrames codec meta (rs.take G)).map Prod.snd).flatMap Frame.encode

theorem sentFramesFrom_append (k : Nat) (l₁ l₂ : List (Request T V)) :
    sentFramesFrom codec meta k (l₁ ++ l₂) =
      sentFramesFrom codec meta k l₁ ++ sentFramesFrom codec meta (k + l₁.length) l₂ := by
  induction l₁ generalizing k with
  | nil => rfl
  | cons r l ih =>
      rw [List.cons_append, sentFramesFrom, sentFramesFrom]
      split <;> simp [ih, Nat.add_assoc, Nat.add_comm 1]

theorem mem_sentFramesFrom {k : Nat} {rs : List (Request T V)} {p : Nat × Frame} (h : p ∈ sentFramesFrom codec meta k rs) :
    k ≤ p.1 ∧ ∃ r payload, rs[p.1 - k]? = some r ∧ codec.encode r.args = .ok payload ∧
      p.2 = requestFrame meta (r.callAt p.1) (UInt32.ofNat (p.1 + 1)) payload := by
  induction rs generalizing k with
  | nil => cases h
  | cons r rs ih =>
      rw [sentFramesFrom] at h
      split at h
      · rename_i payload henc
        rcases List.mem_cons.mp h with rfl | h
        · exact ⟨le_rfl, r, payload, by simp, henc, rfl⟩
        · obtain ⟨hk, r', payload', hr, henc', hp⟩ := ih h
          refine ⟨by omega, r', payload', ?_, henc', hp⟩
          rw [show p.1 - k = (p.1 - (k + 1)) + 1 by omega, List.getElem?_cons_succ, hr]
      · obtain ⟨hk, r', payload', hr, henc', hp⟩ := ih h
        refine ⟨by omega, r', payload', ?_, henc', hp⟩
        rw [show p.1 - k = (p.1 - (k + 1)) + 1 by omega, List.getElem?_cons_succ, hr]

theorem pairwise_sentFramesFrom (k : Nat) (rs : List (Request T V)) :
    (sentFramesFrom codec meta k rs).Pairwise fun p q => p.1 < q.1 := by
  induction rs generalizing k with
  | nil => exact List.Pairwise.nil
  | cons r rs ih =>
      rw [sentFramesFrom]
      split
      · exact List.Pairwise.cons (fun q hq => by have := (mem_sentFramesFrom codec meta hq).1; dsimp only; omega) (ih _)
      · exact ih _

theorem sentFrames_take_succ (rs : List (Request T V)) {G : Nat} (hG : G < rs.length) :
    sentFrames codec meta (rs.take (G + 1)) =
      sentFrames codec meta (rs.take G) ++ sentFramesFrom codec meta G [rs[G]] := by
  rw [sentFrames, sentFrames, List.take_succ, List.getElem?_eq_getElem hG, Option.toList_some, sentFramesFrom_append,
    List.length_take, min_eq_left hG.le, Nat.zero_add]

theorem sentFrames_take_prefix (rs : List (Request T V)) (G : Nat) :
    sentFrames codec meta (rs.take G) <+: sentFrames codec meta rs := by
  conv_rhs => rw [← List.take_append_drop G rs]
  rw [sentFrames, sentFrames, sentFramesFrom_append]
  exact List.prefix_append _ _

theorem mem_sentFrames {rs : List (Request T V)} {p : Nat × Frame} (h : p ∈ sentFrames codec meta rs) :
    p.1 < rs.length ∧ p.2.requestID = UInt32.ofNat (p.1 + 1) := by
  obtain ⟨-, r, payload, hr, -, hp⟩ := mem_sentFramesFrom codec meta h
  rw [Nat.sub_zero] at hr
  exact ⟨(List.getElem?_eq_some_iff.mp hr).1, by rw [hp]; rfl⟩

theorem requestID_ne_of_mem {rs : List (Request T V)} {G : Nat} (hG : G + 1 < 2 ^ 32) {p : Nat × Frame}
    (h : p ∈ sentFrames codec meta (rs.take G)) : p.2.requestID ≠ UInt32.ofNat (G + 1) := by
  obtain ⟨hlt, hid⟩ := mem_sentFrames codec meta h
  have : p.1 < G := lt_of_lt_of_le hlt (List.length_take_le _ _)
  rw [hid]
  exact fun h => by have := uint32_ofNat_inj (by omega) hG h; omega

theorem Tracks.go {rs : List (Request T V)} {G R : Nat} {c : Client T V} (ht : Tracks reg codec meta rf rs G R c)
    (hG : G < rs.length) (hn : rs.length < 2 ^ 32) : Tracks reg codec meta rf rs (G + 1) R (c.step codec meta rs[G].op) := by
  have hid : c.reqID + 1 = UInt32.ofNat (G + 1) :=
    UInt32.toNat.inj (by rw [toNat_add_one (by rw [ht.reqID]; omega), ht.reqID,
      UInt32.toNat_ofNat_of_lt (by unfold UInt32.size; omega)])
  have hS := sentFrames_take_succ codec meta rs hG
  have htake : rs.take (G + 1) = rs.take G ++ [rs[G]] := by rw [List.take_succ, List.getElem?_eq_getElem hG]; rfl
  have hlen : (rs.take G).length = G := List.length_take_of_le hG.le
  have hcalls : c.calls.length = G := by rw [ht.calls, List.length_mapIdx, hlen]
  have hnone : (((sentFrames codec meta (rs.take G)).drop R).find? fun p => p.2.requestID = UInt32.ofNat (G + 1)) = none :=
    List.find?_eq_none.mpr fun p hp => by
      simpa using requestID_ne_of_mem codec meta (by omega) (List.mem_of_mem_drop hp)
  rw [Request.op, Client.step, go_of_open codec meta ht.open_, hid, Call.new_args]
  cases henc : codec.encode rs[G].args with
  | error e =>
      have hS' : sentFrames codec meta (rs.take (G + 1)) = sentFrames codec meta (rs.take G) := by
        rw [hS, sentFramesFrom]
        simp [henc, sentFramesFrom]
      refine ⟨UInt32.toNat_ofNat_of_lt (by unfold UInt32.size; omega), ht.open_, ?_, ?_, hS' ▸ ht.read, hS' ▸ ht.sent⟩
      · rw [hS', htake, List.mapIdx_concat, hlen, ← ht.calls]
        simp only [callAfter, henc]
        rfl
      · rw [hS', GoMap.get_delete, GoMap.get_set, Function.update_idem, ← ht.pending, Function.update_eq_self_iff,
          ht.pending]
        simp only [hnone, Option.map_none']
  | ok payload =>
      -- the call is stored under its ID, and its frame sent
      have hS' : sentFrames codec meta (rs.take (G + 1)) = sentFrames codec meta (rs.take G) ++
          [(G, requestFrame meta (rs[G].callAt G) (UInt32.ofNat (G + 1)) payload)] := by
        rw [hS, sentFramesFrom, henc]
        rfl
      have hGnot : G ∉ ((sentFrames codec meta (rs.take G)).take R).map Prod.fst := fun h => by
        obtain ⟨p, hp, rfl⟩ := List.mem_map.mp h
        have := (mem_sentFrames codec meta (List.mem_of_mem_take hp)).1
        omega
      refine ⟨UInt32.toNat_ofNat_of_lt (by unfold UInt32.size; omega), ht.open_, ?_, ?_, ?_, ?_⟩
      · rw [hS', List.take_append_of_le_length ht.read, htake, List.mapIdx_concat, hlen, ← ht.calls]
        simp only [callAfter, henc, hGnot, decide_False]
        rfl
      · rw [hS', List.drop_append_of_le_length ht.read, GoMap.get_set, ht.pending, hcalls]
        funext id
        rw [List.find?_append]
        by_cases hid' : id = UInt32.ofNat (G + 1)
        · subst hid'
          rw [Function.update_same, hnone]
          simp [requestFrame, newFrame]
        · rw [Function.update_noteq hid']
          simp [requestFrame, newFrame, Ne.symm hid']
      · rw [hS', List.length_append]
        exact le_trans ht.read (Nat.le_add_right _ _)
      · rw [hS', ht.sent, List.map_append, List.flatMap_append]
        simp only [List.map_cons, List.map_nil, List.flatMap_cons, List.flatMap_nil, List.append_nil]
        rfl

theorem Tracks.recv {rs : List (Request T V)} {G R : Nat} {c : Client T V} (ht : Tracks reg codec meta rf rs G R c)
    (hR : R < (sentFrames codec meta (rs.take G)).length) (hn : rs.length < 2 ^ 32) :
    Tracks reg codec meta rf rs G (R + 1)
      (c.step codec meta (.recv (handleRequest reg codec meta rf (sentFrames codec meta (rs.take G))[R].2))) := by
  have hpair : (sentFrames codec meta (rs.take G)).Pairwise fun p q => p.1 < q.1 :=
    pairwise_sentFramesFrom codec meta 0 (rs.take G)
  have hp := List.getElem_mem hR
  obtain ⟨-, r, payload, hr, henc, hpf⟩ := mem_sentFramesFrom codec meta hp
  -- frames for other calls carry other IDs
  have hids : ∀ q ∈ sentFrames codec meta (rs.take G), q.1 ≠ (sentFrames codec meta (rs.take G))[R].1 →
      q.2.requestID ≠ (sentFrames codec meta (rs.take G))[R].2.requestID := fun q hq hne h => by
    have hq' := mem_sentFrames codec meta hq
    have hp' := mem_sentFrames codec meta hp
    rw [hq'.2, hp'.2] at h
    rw [List.length_take] at hq' hp'
    exact hne (by have := uint32_ofNat_inj (by omega) (by omega) h; omega)
  have hanswer := (handleRequest_requestID reg codec meta rf (sentFrames codec meta (rs.take G))[R].2).1
  set S := sentFrames codec meta (rs.take G)
  set p := S[R]
  have hdrop : S.drop R = p :: S.drop (R + 1) := List.drop_eq_getElem_cons hR
  have hafter : ∀ q ∈ S.drop (R + 1), p.1 < q.1 :=
    (List.pairwise_cons.mp (hdrop ▸ hpair.sublist (List.drop_sublist R S))).1
  have hbefore : ∀ q ∈ S.take R, q.1 < p.1 := fun q hq =>
    (List.pairwise_append.mp ((List.take_append_drop R S).symm ▸ hpair)).2.2 q hq p (hdrop ▸ List.mem_cons_self _ _)
  have hget : c.pending.get (handleRequest reg codec meta rf p.2).requestID = some p.1 := by
    rw [ht.pending, hdrop, hanswer]
    simp
  rw [Client.step, Client.handleFrame, hget]
  refine ⟨ht.reqID, ht.open_, ?_, ?_, hR, ht.sent⟩
  · show c.calls.modify _ p.1 = _
    rw [ht.calls, List.take_succ, List.getElem?_eq_getElem hR]
    refine List.ext_getElem? fun j => ?_
    rw [List.getElem?_modify, List.getElem?_mapIdx, List.getElem?_mapIdx]
    by_cases hj : p.1 = j
    · -- the answered call
      subst hj
      have hnot : p.1 ∉ (S.take R).map Prod.fst := fun h => by
        obtain ⟨q, hq, hqe⟩ := List.mem_map.mp h
        have := hbefore q hq
        omega
      have hin : p.1 ∈ (S.take R ++ (some p).toList).map Prod.fst := by simp
      rw [Nat.sub_zero] at hr
      simp only [hr, hnot, hin, decide_True, decide_False, Option.map_eq_map, Option.map_some', if_pos, callAfter,
        Bool.false_eq_true, if_false,
        henc, hpf]
    · have hmem : j ∈ (S.take R ++ (some p).toList).map Prod.fst ↔ j ∈ (S.take R).map Prod.fst := by
        simp [Ne.symm hj]
      simp only [hmem, hj, if_false]
      cases (rs.take G)[j]? <;> rfl
  · show (c.pending.delete _).get = _
    rw [GoMap.get_delete, ht.pending, hanswer]
    funext id
    by_cases hid : id = p.2.requestID
    · subst hid
      rw [Function.update_same, eq_comm, Option.map_eq_none', List.find?_eq_none]
      intro q hq
      have := hids q (List.mem_of_mem_drop hq) (Nat.ne_of_gt (hafter q hq))
      simpa using this
    · rw [Function.update_noteq hid, hdrop, List.find?_cons_of_neg _ (by simpa using Ne.symm hid)]

theorem tracks_newClient (rs : List (Request T V)) : Tracks reg codec meta rf rs 0 0 (newClient : Client T V) :=
  ⟨rfl, rfl, rfl, by funext id; rfl, le_rfl, rfl⟩

theorem mem_fst_sentFramesFrom {j k : Nat} {rs : List (Request T V)} {r : Request T V} {payload : Bytes}
    (hr : rs[k]? = some r) (henc : codec.encode r.args = .ok payload) :
    j + k ∈ (sentFramesFrom codec meta j rs).map Prod.fst := by
  induction rs generalizing j k with
  | nil => cases hr
  | cons r' rs ih =>
      rw [sentFramesFrom]
      cases k with
      | zero =>
          obtain rfl : r' = r := by simpa using hr
          simp [henc]
      | succ k =>
          have : j + 1 + k ∈ (sentFramesFrom codec meta (j + 1) rs).map Prod.fst :=
            ih (by rwa [List.getElem?_cons_succ] at hr)
          rw [show j + (k + 1) = j + 1 + k by omega]
          split <;> simp [this]

theorem Tracks.run {rs : List (Request T V)} (hn : rs.length < 2 ^ 32) (sched : List Bool) :
    ∀ {G R : Nat} {c : Client T V}, Tracks reg codec meta rf rs G R c → scheduleOk codec meta rs sched G R = true →
      Tracks reg codec meta rf rs rs.length (sentFrames codec meta rs).length
        (c.run codec meta (interleave sched ((rs.drop G).map Request.op)
          (((sentFrames codec meta rs).drop R).map fun p => .recv (handleRequest reg codec meta rf p.2)))) := by
  induction sched with
  | nil =>
      intro G R c ht h
      simp only [scheduleOk, Bool.and_eq_true, beq_iff_eq] at h
      obtain ⟨rfl, rfl⟩ := h
      exact ht
  | cons b s ih =>
      intro G R c ht h
      cases b with
      | true =>
          simp only [scheduleOk, Bool.and_eq_true, decide_eq_true_eq] at h
          rw [List.drop_eq_getElem_cons h.1, List.map_cons, interleave]
          exact ih (ht.go reg codec meta rf h.1 hn) h.2
      | false =>
          simp only [scheduleOk, Bool.and_eq_true, decide_eq_true_eq] at h
          have hpre := sentFrames_take_prefix codec meta rs G
          rw [List.drop_eq_getElem_cons (lt_of_lt_of_le h.1 hpre.length_le), List.map_cons, interleave,
            ← hpre.getElem h.1]
          exact ih (ht.recv reg codec meta rf h.1 hn) h.2

/-- One connection, end to end. A client makes the calls `rs` while its receive loop reads the
frames that the server's `handleConn` writes back for the bytes the client sends, the two
goroutines in any order in which the loop reads only answers already written. Then the client
has sent exactly one request frame per call whose arguments encode, every call has completed
with the server's answer to its own request frame, and nothing is left pending. -/
theorem exchange_answers_every_call (rs : List (Request T V)) (hn : rs.length < 2 ^ 32)
    (hfits : ∀ p ∈ sentFrames codec meta rs, p.2.Fits ∧ (handleRequest reg codec meta rf p.2).Fits)
    (sched : List Bool) (hsched : scheduleOk codec meta rs sched 0 0 = true) :
    let bytes := ((sentFrames codec meta rs).map Prod.snd).flatMap Frame.encode
    let c := newClient.run codec meta (interleave sched (rs.map Request.op)
      ((streamFrames (handleConn reg codec meta rf bytes)).1.map Op.recv))
    c.sent = bytes ∧ c.calls = rs.mapIdx (callAfter reg codec meta rf true) ∧ c.pending = [] := by
  intro bytes c
  have hreq : ∀ p ∈ sentFrames codec meta rs, p.2.type = typeRequest ∧ p.2.Valid := fun p hp => by
    obtain ⟨-, r, payload, -, -, hpf⟩ := mem_sentFramesFrom codec meta hp
    rw [hpf]
    exact ⟨rfl, rfl, rfl⟩
  -- the server answers every request frame, and the receive loop reads the answers back
  have hanswers : (streamFrames (handleConn reg codec meta rf bytes)).1 =
      (sentFrames codec meta rs).map fun p => handleRequest reg codec meta rf p.2 := by
    have hserver : ((sentFrames codec meta rs).map Prod.snd).filterMap (respond reg codec meta rf) =
        (sentFrames codec meta rs).map fun p => handleRequest reg codec meta rf p.2 := by
      rw [List.filterMap_map, ← List.filterMap_eq_map]
      exact List.filterMap_congr fun p hp => if_pos (hreq p hp).1
    have hsent : ∀ f ∈ (sentFrames codec meta rs).map Prod.snd, f.Valid ∧ f.Fits := fun f hf => by
      obtain ⟨p, hp, rfl⟩ := List.mem_map.mp hf
      exact ⟨(hreq p hp).2, (hfits p hp).1⟩
    have hwritten : ∀ f ∈ (sentFrames codec meta rs).map (fun p => handleRequest reg codec meta rf p.2),
        f.Valid ∧ f.Fits := fun f hf => by
      obtain ⟨p, hp, rfl⟩ := List.mem_map.mp hf
      exact ⟨(handleRequest_requestID reg codec meta rf p.2).2.1, (hfits p hp).2⟩
    rw [handleConn_flatMap_encode reg codec meta rf _ hsent, hserver, streamFrames,
      readFrames_flatMap_encode _ hwritten _ le_rfl]
  have ht := (tracks_newClient reg codec meta rf rs).run reg codec meta rf hn sched hsched
  rw [List.drop_zero, List.drop_zero] at ht
  have hc : c = newClient.run codec meta (interleave sched (rs.map Request.op)
      ((sentFrames codec meta rs).map fun p => .recv (handleRequest reg codec meta rf p.2))) := by
    show newClient.run codec meta _ = _
    rw [hanswers, List.map_map]
    rfl
  rw [hc]
  refine ⟨by rw [ht.sent, List.take_length], ?_, ?_⟩
  · rw [ht.calls, List.take_length, List.take_length]
    refine List.ext_getElem? fun k => ?_
    rw [List.getElem?_mapIdx, List.getElem?_mapIdx]
    cases hk : rs[k]? with
    | none => rfl
    | some r =>
        simp only [Option.map_some', Option.some.injEq, callAfter]
        cases henc : codec.encode r.args with
        | error e => rfl
        | ok payload =>
            have hmem : 0 + k ∈ (sentFramesFrom codec meta 0 rs).map Prod.fst := mem_fst_sentFramesFrom codec meta hk henc
            rw [Nat.zero_add] at hmem
            simp only [show k ∈ (sentFrames codec meta rs).map Prod.fst from hmem, decide_True]
  · exact GoMap.eq_nil_of_get fun id => by rw [ht.pending, List.take_length, List.drop_length]; rfl

/-- One call to an empty registry, its frame sent before the answer is read. -/
theorem exchange_answers_every_call_one :
    let reg : ServiceRegistry Unit Unit := newRegistry
    let codec : Codec Unit Unit := ⟨fun _ => .ok [], fun _ _ => .ok ()⟩
    let meta : MetaCodec := ⟨fun s m => s ++ m, fun b => .ok (b, [])⟩
    let rf : Reflect Unit Unit := ⟨fun _ => (), fun _ => (), fun _ => [], fun _ _ => true⟩
    let rs : List (Request Unit Unit) := [⟨lit "Arith", lit "Add", some (), none⟩]
    (rs.length < 2 ^ 32 ∧ (∀ p ∈ sentFrames codec meta rs, p.2.Fits ∧ (handleRequest reg codec meta rf p.2).Fits) ∧
      scheduleOk codec meta rs [true, false] 0 0 = true) ∧
      let bytes := ((sentFrames codec meta rs).map Prod.snd).flatMap Frame.encode
      let c := newClient.run codec meta (interleave [true, false] (rs.map Request.op)
        ((streamFrames (handleConn reg codec meta rf bytes)).1.map Op.recv))
      c.sent = bytes ∧ c.calls = rs.mapIdx (callAfter reg codec meta rf true) ∧ c.pending = [] := by
  intro reg codec meta rf rs
  have hfits : ∀ p ∈ sentFrames codec meta rs, p.2.Fits ∧ (handleRequest reg codec meta rf p.2).Fits := by
    intro p hp
    simp only [sentFrames, sentFramesFrom, rs, codec, List.mem_singleton] at hp
    subst hp
    exact ⟨⟨by decide, by decide⟩, ⟨by decide, by decide⟩⟩
  exact ⟨⟨by decide, hfits, by decide⟩, exchange_answers_every_call reg codec meta rf rs (by decide) hfits _ (by decide)⟩

end Exchange

end FastServer.Rpc
