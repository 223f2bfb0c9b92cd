import FastServer.Basic

namespace FastServer.Websocket

/-- The buffer sizes of `Client.Send` (`NewClient`) and of the hub's channels (`NewHub`). -/
def sendCap : Nat := 256
def registerCap : Nat := 100
def unregisterCap : Nat := 100
def broadcastCap : Nat := 1000

/-- A `Client` made by `NewClient`: its ID, the payloads buffered in `Send`, and whether `Close`
has run, which sets `closed` and closes `Send`. A client is named by its index in the list of
clients, as by a pointer. -/
structure Client where
  id : Nat
  send : List Bytes
  closed : Bool
  deriving DecidableEq, Repr

/-- A `BroadcastMessage`; `room` is `none` for the room `""`. The op code is not read. -/
structure BroadcastMessage where
  payload : Bytes
  room : Option Nat
  deriving DecidableEq, Repr

/-- Where the goroutine `run` is: at its `select`, inside the `Range` of a broadcast to every
client with the clients still to visit, or at `h.unregister <- client` inside that `Range`. -/
inductive RunPc
  | select
  | ranging (payload : Bytes) (todo : List Nat)
  | unregistering (client : Nat) (payload : Bytes) (todo : List Nat)
  deriving DecidableEq, Repr

/-- Where another goroutine is: idle, at a send on one of the hub's channels (in `Register`,
`Unregister` or `Broadcast`), at the `select` of `SendTo` with the client it loaded, or in the
loop of a client's `readPump` or `writePump`. -/
inductive CallerPc
  | idle
  | register (client : Nat)
  | unregister (client : Nat)
  | broadcast (msg : BroadcastMessage)
  | sendTo (client : Nat) (payload : Bytes)
  | readPump (client : Nat)
  | writePump (client : Nat)
  deriving DecidableEq, Repr

/-- A `Hub` with the clients and goroutines around it. `clients` and `rooms` are the `sync.Map`s
(ID to client, room name to the room's ID-to-client map); the channels hold what is buffered. -/
structure Hub where
  clientObjs : List Client
  clients : GoMap Nat Nat
  register : List Nat
  unregister : List Nat
  broadcast : List BroadcastMessage
  rooms : GoMap Nat (GoMap Nat Nat)
  runPc : RunPc
  callers : List CallerPc
  maxClients : Nat
  deriving DecidableEq, Repr

/-- `NewHub(maxClients)`, its `run` goroutine at the `select`. -/
def newHub (maxClients : Int) : Hub :=
  ⟨[], [], [], [], [], [], .select, [], (if maxClients ≤ 0 then 10000 else maxClients).toNat⟩

/-- The API calls a goroutine can make. `Join`, `Leave` and `Room.Broadcast` act on the room
the hub holds under that name. -/
inductive Call
  | register (client : Nat)
  | unregister (client : Nat)
  | broadcast (payload : Bytes) (room : Option Nat)
  | sendTo (id : Nat) (payload : Bytes)
  | createRoom (name : Nat)
  | join (name id : Nat)
  | leave (name id : Nat)
  | deleteRoom (name : Nat)

inductive SelectCase
  | register
  | unregister
  | broadcast

/-- The moves of the goroutines: a new client object, a new goroutine, an idle goroutine making
a call, the next step of a goroutine, a client's pump returning on a read or write error, a case
of `run`'s `select`, and the next step of `run` inside a `Range`. A move that would block
changes nothing. -/
inductive Act
  | newClient (id : Nat)
  | spawn
  | call (i : Nat) (c : Call)
  | callerStep (i : Nat)
  | pumpFails (i : Nat)
  | select (c : SelectCase)
  | range

namespace Hub

def setClient (h : Hub) (p : Nat) (c : Client) : Hub := { h with clientObjs := h.clientObjs.set p c }

def setCaller (h : Hub) (i : Nat) (pc : CallerPc) : Hub := { h with callers := h.callers.set i pc }

/-- `client.Close()`. -/
def closeClient (h : Hub) (p : Nat) : Hub :=
  match h.clientObjs.get? p with
  | some c => h.setClient p { c with closed := true }
  | none => h

/-- `select { case client.Send <- payload: … default: … }`: a send on a closed channel panics;
otherwise the payload is buffered when there is room (`true`) and the `default` runs when not. -/
def trySend (h : Hub) (p : Nat) (payload : Bytes) : Except String (Hub × Bool) :=
  match h.clientObjs.get? p with
  | none => .ok (h, false)
  | some c =>
      if c.closed then .error "send on closed channel"
      else if c.send.length < sendCap then .ok (h.setClient p { c with send := c.send ++ [payload] }, true)
      else .ok (h, false)

/-- `Room.Broadcast(payload)`: a `trySend` to each member. -/
def roomBroadcast (h : Hub) : List Nat → Bytes → Except String Hub
  | [], _ => .ok h
  | p :: ps, payload => do
      let (h, _) ← h.trySend p payload
      h.roomBroadcast ps payload

/-- A case of `run`'s `select` on a channel with something buffered. -/
def runSelect (h : Hub) : SelectCase → Except String Hub
  | .register =>
      match h.register with
      | [] => .ok h
      | p :: rest =>
          match h.clientObjs.get? p with
          | some c => .ok { h with register := rest, clients := h.clients.set c.id p }
          | none => .ok { h with register := rest }
  | .unregister =>
      match h.unregister with
      | [] => .ok h
      | p :: rest =>
          match h.clientObjs.get? p with
          | some c =>
              if (h.clients.get c.id).isSome then
                .ok ({ h with unregister := rest, clients := h.clients.delete c.id }.closeClient p)
              else .ok { h with unregister := rest }
          | none => .ok { h with unregister := rest }
  | .broadcast =>
      match h.broadcast with
      | [] => .ok h
      | msg :: rest =>
          match msg.room with
          | none => .ok { h with broadcast := rest, runPc := .ranging msg.payload (h.clients.map Prod.snd) }
          | some name =>
              match h.rooms.get name with
              | some members => { h with broadcast := rest }.roomBroadcast (members.map Prod.snd) msg.payload
              | none => .ok { h with broadcast := rest }

/-- One step of `run` inside the `Range` of a broadcast to every client: a client whose `Send`
is full is sent to `h.unregister`, where `run` itself blocks while that channel is full. -/
def runRange (h : Hub) : Except String Hub :=
  match h.runPc with
  | .select => .ok h
  | .ranging _ [] => .ok { h with runPc := .select }
  | .ranging payload (p :: todo) =>
      match h.trySend p payload with
      | .error msg => .error msg
      | .ok (h, true) => .ok { h with runPc := .ranging payload todo }
      | .ok (h, false) => .ok { h with runPc := .unregistering p payload todo }
  | .unregistering p payload todo =>
      if h.unregister.length < unregisterCap then
        .ok { h with unregister := h.unregister ++ [p], runPc := .ranging payload todo }
      else .ok h

/-- An idle goroutine `i` makes a call. `Register` counts the clients first; `SendTo` loads
the client first. -/
def call (h : Hub) (i : Nat) : Call → Hub
  | .register p => if h.maxClients ≤ h.clients.length then h else h.setCaller i (.register p)
  | .unregister p => h.setCaller i (.unregister p)
  | .broadcast payload room => h.setCaller i (.broadcast ⟨payload, room⟩)
  | .sendTo id payload =>
      match h.clients.get id with
      | some p => h.setCaller i (.sendTo p payload)
      | none => h
  | .createRoom name => { h with rooms := h.rooms.set name [] }
  | .join name id =>
      match h.clients.get id, h.rooms.get name with
      | some p, some members => { h with rooms := h.rooms.set name (members.set id p) }
      | _, _ => h
  | .leave name id =>
      match h.rooms.get name with
      | some members => { h with rooms := h.rooms.set name (members.delete id) }
      | none => h
  | .deleteRoom name => { h with rooms := h.rooms.delete name }

/-- The next step of goroutine `i`. A `Register` that has sent starts the client's pumps; the
`writePump` takes a payload off `Send`, and on a closed, drained `Send` its `range` ends. -/
def callerStep (h : Hub) (i : Nat) : Except String Hub :=
  match h.callers.get? i with
  | some (.register p) =>
      if h.register.length < registerCap then
        .ok { (h.setCaller i .idle) with
          register := h.register ++ [p], callers := h.callers.set i .idle ++ [.readPump p, .writePump p] }
      else .ok h
  | some (.unregister p) =>
      if h.unregister.length < unregisterCap then
        .ok { (h.setCaller i .idle) with unregister := h.unregister ++ [p] }
      else .ok h
  | some (.broadcast msg) =>
      if h.broadcast.length < broadcastCap then
        .ok { (h.setCaller i .idle) with broadcast := h.broadcast ++ [msg] }
      else .ok h
  | some (.sendTo p payload) =>
      match h.trySend p payload with
      | .error msg => .error msg
      | .ok (h, _) => .ok (h.setCaller i .idle)
  | some (.writePump p) =>
      match h.clientObjs.get? p with
      | some c =>
          match c.send with
          | _ :: rest => .ok (h.setClient p { c with send := rest })
          | [] => if c.closed then .ok (h.setCaller i (.unregister p)) else .ok h
      | none => .ok h
  | _ => .ok h

/-- A pump returns on an error of `ReadMessage` or `WriteMessage`; its deferred `Unregister`
runs next. -/
def pumpFails (h : Hub) (i : Nat) : Hub :=
  match h.callers.get? i with
  | some (.readPump p) | some (.writePump p) => h.setCaller i (.unregister p)
  | _ => h

def step (h : Hub) : Act → Except String Hub
  | .newClient id => .ok { h with clientObjs := h.clientObjs ++ [⟨id, [], false⟩] }
  | .spawn => .ok { h with callers := h.callers ++ [.idle] }
  | .call i c => if h.callers.get? i = some .idle then .ok (h.call i c) else .ok h
  | .callerStep i => h.callerStep i
  | .pumpFails i => .ok (h.pumpFails i)
  | .select c => if h.runPc = .select then h.runSelect c else .ok h
  | .range => h.runRange

/-- An interleaving of the goroutines' moves, stopping at the first panic. -/
def run (h : Hub) : List Act → Except String Hub
  | [] => .ok h
  | a :: acts =>
      match h.step a with
      | .error msg => .error msg
      | .ok h => h.run acts

end Hub

theorem set_of_getElem?_eq {α : Type} {l : List α} {i : Nat} {a : α} (h : l[i]? = some a) : l.set i a = l :=
  List.ext_getElem? fun j => by
    rw [List.getElem?_set]
    split_ifs with hij hlt
    · rw [← hij, h]
    · exact absurd (List.getElem?_eq_some_iff.mp h).1 hlt
    · rfl

namespace Hub

variable {h h' : Hub} {i id p : Nat} {c : Client} {payload : Bytes}

theorem run_append (h : Hub) (acts₁ acts₂ : List Act) :
    h.run (acts₁ ++ acts₂) = (h.run acts₁).bind (·.run acts₂) := by
  induction acts₁ generalizing h with
  | nil => rfl
  | cons a acts ih =>
      simp only [List.cons_append, run]
      cases h.step a with
      | error msg => rfl
      | ok h₁ => exact ih h₁

theorem run_sendTo (hi : h.callers[i]? = some .idle) (hid : h.clients.get id = some p)
    (hc : h.clientObjs[p]? = some c) (hopen : c.closed = false) (hroom : c.send.length < sendCap) :
    h.run [.call i (.sendTo id payload), .callerStep i] = .ok (h.setClient p { c with send := c.send ++ [payload] }) := by
  have hlt : i < h.callers.length := (List.getElem?_eq_some_iff.mp hi).1
  simp [run, step, hi, call, hid, callerStep, setCaller, hlt, trySend, hc, hopen, hroom, setClient,
    List.set_set, set_of_getElem?_eq hi]

theorem run_sendTo_replicate (k : Nat) (hi : h.callers[i]? = some .idle) (hid : h.clients.get id = some p)
    (hc : h.clientObjs[p]? = some c) (hopen : c.closed = false) (hroom : c.send.length + k ≤ sendCap) :
    h.run (List.replicate k [.call i (.sendTo id payload), .callerStep i]).flatten =
      .ok (h.setClient p { c with send := c.send ++ List.replicate k payload }) := by
  induction k generalizing h c with
  | zero => simp [run, setClient, set_of_getElem?_eq hc]
  | succ k ih =>
      have hp : p < h.clientObjs.length := (List.getElem?_eq_some_iff.mp hc).1
      rw [List.replicate_succ, List.flatten_cons, run_append, run_sendTo hi hid hc hopen (by omega)]
      rw [Except.bind, ih (h := h.setClient p _) (c := { c with send := c.send ++ [payload] }) hi hid
        (List.getElem?_set_self hp) hopen (by simp; omega)]
      simp [setClient, List.set_set, List.replicate_succ]

theorem run_unregister (hi : h.callers[i]? = some .idle) (hroom : h.unregister.length < unregisterCap) :
    h.run [.call i (.unregister p), .callerStep i] = .ok { h with unregister := h.unregister ++ [p] } := by
  have hlt : i < h.callers.length := (List.getElem?_eq_some_iff.mp hi).1
  simp [run, step, hi, call, callerStep, setCaller, hlt, hroom, List.set_set, set_of_getElem?_eq hi]

theorem run_unregister_replicate (k : Nat) (hi : h.callers[i]? = some .idle)
    (hroom : h.unregister.length + k ≤ unregisterCap) :
    h.run (List.replicate k [.call i (.unregister p), .callerStep i]).flatten =
      .ok { h with unregister := h.unregister ++ List.replicate k p } := by
  induction k generalizing h with
  | zero => simp [run]
  | succ k ih =>
      rw [List.replicate_succ, List.flatten_cons, run_append, run_unregister hi (by omega)]
      rw [Except.bind, ih (h := { h with unregister := h.unregister ++ [p] }) hi (by simp; omega)]
      simp [List.replicate_succ]

theorem call_frame (h : Hub) (i : Nat) (c : Call) :
    (h.call i c).runPc = h.runPc ∧ (h.call i c).unregister = h.unregister := by
  cases c <;> simp only [call] <;> (try split) <;> simp [setCaller]

theorem pumpFails_frame (h : Hub) (i : Nat) :
    (h.pumpFails i).runPc = h.runPc ∧ (h.pumpFails i).unregister = h.unregister := by
  unfold pumpFails; split <;> exact ⟨rfl, rfl⟩

theorem trySend_frame {b : Bool} (hs : h.trySend p payload = .ok (h', b)) :
    h'.runPc = h.runPc ∧ h'.unregister = h.unregister := by
  unfold trySend at hs
  split at hs
  · cases hs; exact ⟨rfl, rfl⟩
  · split at hs
    · cases hs
    · split at hs <;> cases hs <;> exact ⟨rfl, rfl⟩

theorem callerStep_blocked (hfull : h.unregister.length = unregisterCap) (hs : h.callerStep i = .ok h') :
    h'.runPc = h.runPc ∧ h'.unregister = h.unregister := by
  unfold callerStep at hs
  split at hs
  · split at hs <;> cases hs <;> exact ⟨rfl, rfl⟩
  · rw [if_neg (by omega)] at hs
    cases hs; exact ⟨rfl, rfl⟩
  · split at hs <;> cases hs <;> exact ⟨rfl, rfl⟩
  · split at hs
    · cases hs
    · rename_i hts
      cases hs
      have := trySend_frame hts
      exact this
  · split at hs
    · split at hs
      · cases hs; exact ⟨rfl, rfl⟩
      · split at hs <;> cases hs <;> exact ⟨rfl, rfl⟩
    · cases hs; exact ⟨rfl, rfl⟩
  · cases hs; exact ⟨rfl, rfl⟩

theorem step_blocked {a : Act} {q : Nat} {todo : List Nat} (hpc : h.runPc = .unregistering q payload todo)
    (hfull : h.unregister.length = unregisterCap) (hs : h.step a = .ok h') :
    h'.runPc = h.runPc ∧ h'.unregister = h.unregister := by
  cases a with
  | newClient id => cases hs; exact ⟨rfl, rfl⟩
  | spawn => cases hs; exact ⟨rfl, rfl⟩
  | call i c =>
      simp only [step] at hs
      split at hs <;> cases hs
      · exact call_frame h i c
      · exact ⟨rfl, rfl⟩
  | callerStep i => exact callerStep_blocked hfull hs
  | pumpFails i => cases hs; exact pumpFails_frame h i
  | select c =>
      simp only [step, hpc, reduceCtorEq, if_false] at hs
      cases hs; exact ⟨rfl, rfl⟩
  | range =>
      simp only [step, runRange, hpc, hfull, Nat.lt_irrefl, if_false] at hs
      cases hs; exact ⟨rfl, rfl⟩

/-- Once blocked there, `run` stays blocked in every continuation of the interleaving: the hub
stops serving registrations, unregistrations and broadcasts. -/
theorem run_blocked {acts : List Act} {q : Nat} {todo : List Nat} (hpc : h.runPc = .unregistering q payload todo)
    (hfull : h.unregister.length = unregisterCap) (hr : h.run acts = .ok h') :
    h'.runPc = h.runPc ∧ h'.unregister = h.unregister := by
  induction acts generalizing h with
  | nil => cases hr; exact ⟨rfl, rfl⟩
  | cons a acts ih =>
      simp only [run] at hr
      split at hr
      · cases hr
      · obtain ⟨h₁, h₂⟩ := step_blocked hpc hfull ‹_›
        obtain ⟨h₃, h₄⟩ := ih (h₁.trans hpc) (h₂ ▸ hfull) hr
        exact ⟨h₃.trans h₁, h₄.trans h₂⟩

end Hub

set_option maxRecDepth 4000 in
/-- Two interleavings of a hub with one client. In the first, the client joins a room, is
unregistered (so `run` closes its `Send`) and stays in the room: the next room broadcast sends
on the closed channel and panics. In the second, the client's `Send` is full and `unregister`
holds 100 pending calls when a broadcast comes: `run` blocks on its own `unregister` channel and
stays blocked whatever the goroutines do next. -/
theorem hub_panics_and_blocks_itself :
    (newHub 10).run [.newClient 1, .spawn, .call 0 (.register 0), .callerStep 0, .select .register,
        .call 0 (.createRoom 7), .call 0 (.join 7 1), .call 0 (.unregister 0), .callerStep 0,
        .select .unregister, .call 0 (.broadcast [] (some 7)), .callerStep 0, .select .broadcast] =
      .error "send on closed channel" ∧
    ∃ h, (newHub 10).run ([.newClient 1, .spawn, .call 0 (.register 0), .callerStep 0, .select .register] ++
        (List.replicate 256 [.call 0 (.sendTo 1 []), .callerStep 0]).flatten ++
        (List.replicate 100 [.call 0 (.unregister 0), .callerStep 0]).flatten ++
        [.call 0 (.broadcast [] none), .callerStep 0, .select .broadcast, .range]) = .ok h ∧
      h.runPc = .unregistering 0 [] [] ∧ h.unregister.length = unregisterCap ∧
      ∀ acts h', h.run acts = .ok h' → h'.runPc = h.runPc := by
  refine ⟨by decide, ?_⟩
  let c : Client := ⟨1, [], false⟩
  let h₁ : Hub := ⟨[c], [(1, 0)], [], [], [], [], .select, [.idle, .readPump 0, .writePump 0], 10⟩
  have r₁ : (newHub 10).run [.newClient 1, .spawn, .call 0 (.register 0), .callerStep 0, .select .register] =
      .ok h₁ := by decide
  have r₂ : h₁.run (List.replicate 256 [.call 0 (.sendTo 1 []), .callerStep 0]).flatten =
      .ok (h₁.setClient 0 { c with send := c.send ++ List.replicate 256 [] }) :=
    Hub.run_sendTo_replicate 256 rfl (show h₁.clients.get 1 = some 0 from rfl) rfl rfl (by decide)
  have r₃ := Hub.run_unregister_replicate (h := h₁.setClient 0 { c with send := c.send ++ List.replicate 256 [] })
    (i := 0) (p := 0) 100 rfl (by decide)
  obtain ⟨h₄, r₄, hpc, hlen⟩ : ∃ h₄, ({ h₁.setClient 0 { c with send := c.send ++ List.replicate 256 [] } with
      unregister := [] ++ List.replicate 100 0 } : Hub).run
        [.call 0 (.broadcast [] none), .callerStep 0, .select .broadcast, .range] = .ok h₄ ∧
      h₄.runPc = .unregistering 0 [] [] ∧ h₄.unregister.length = unregisterCap := ⟨_, rfl, rfl, rfl⟩
  refine ⟨h₄, ?_, hpc, hlen, fun acts h' hr => (Hub.run_blocked hpc hlen hr).1⟩
  rw [Hub.run_append, Hub.run_append, Hub.run_append, r₁, Except.bind, r₂, Except.bind, r₃, Except.bind]
  exact r₄

end FastServer.Websocket
