import Mathlib.Data.List.Nodup
import FastServer.Sse

namespace FastServer.Sse

open Decimal (formatInt)
open scoped List

/-- The buffer sizes of the broker's channels (`NewBroker`). -/
def newClientsCap : Nat := 100
def deadClientsCap : Nat := 100
def messagesCap : Nat := 1000

/-- The capacity of a client's `Channel`, `NewClient(id, bufferSize)`: 100 for a size that is
not positive. -/
def channelCap (bufferSize : Int) : Nat := if bufferSize ≤ 0 then 100 else bufferSize.toNat

/-- A `Client`: its ID, the events buffered in `Channel` and its capacity, and whether `Close`
has run, which closes `closeCh` and `Channel` once. `got` records the serial number of every
published event put in `Channel`. A client is named by its index in the list of clients, as by
a pointer. -/
structure Client where
  id : Bytes
  channel : List Event
  cap : Nat
  closed : Bool
  got : List Nat
  deriving DecidableEq, Repr

/-- A loop of `Client.Send` calls under way, in `broadcast` or `Room.Broadcast`, or a single
call: the event, its serial number when it is a published one, the clients still to visit,
whether the first of them passed the `IsClosed` check, and whether a failed send counts in
`droppedCount` (it does in `broadcast`). -/
structure Sending where
  event : Event
  serial : Option Nat
  todo : List Nat
  checked : Bool
  counted : Bool
  deriving DecidableEq, Repr

/-- Where a goroutine other than `run` and `keepalive` is: idle, at the channel send of
`Register`, `Unregister` or `Publish`, or in `Client.Send` calls. -/
inductive CallerPc
  | idle
  | register (client : Nat)
  | unregister (client : Nat)
  | publish (event : Event)
  | sending (s : Sending)
  deriving DecidableEq, Repr

/-- A `Broker` with the clients, rooms and goroutines around it, and the one `Stream` on it.
`clients` is the `sync.Map` from ID to client, each room a map of its own; the channels hold
what is buffered, the published events with their serial numbers. `runPc` and `keepPc` are the
`broadcast` loops of `run` and `keepalive` under way, if any. `published` and `taken` record
the serial numbers handed out by `Publish` and taken off `messages` by `run`. -/
structure Broker where
  clientObjs : List Client
  clients : GoMap Bytes Nat
  newClients : List Nat
  deadClients : List Nat
  messages : List (Nat × Event)
  totalClients : Nat
  messagesCount : Nat
  droppedCount : Nat
  maxClients : Nat
  runPc : Option Sending
  keepPc : Option Sending
  callers : List CallerPc
  rooms : List (GoMap Bytes Nat)
  streamNamespace : Bytes
  eventID : Nat
  published : Nat
  taken : List Nat
  deriving DecidableEq, Repr

/-- `NewBroker(maxClients, keepaliveInterval)`: a non-positive `maxClients` means 10000; `run`
starts at its `select` and `keepalive` waits for its ticker. -/
def newBroker (maxClients : Int) : Broker :=
  ⟨[], [], [], [], [], 0, 0, 0, if maxClients ≤ 0 then 10000 else maxClients.toNat, none, none, [], [], [], 0,
    0, []⟩

/-- `NewStream(namespace).WithBroker(NewBroker(maxClients, …))`. -/
def newStreamOn (maxClients : Int) (streamNamespace : Bytes) : Broker :=
  { newBroker maxClients with streamNamespace := streamNamespace }

/-- `NewStream(namespace)`, on `NewBroker(10000, 30*time.Second)`. -/
def newStream (streamNamespace : Bytes) : Broker := newStreamOn 10000 streamNamespace

/-- The API calls a goroutine can make. `Send`, `SendTo` and `Broadcast` are the stream's, which
number their events; `send` is a direct `Client.Send`, `close` a direct `Client.Close`. -/
inductive Call
  | register (client : Nat)
  | unregister (client : Nat)
  | publish (event : Event)
  | publishToClient (id : Bytes) (event : Event)
  | send (client : Nat) (event : Event)
  | close (client : Nat)
  | streamSend (eventType data : Bytes)
  | streamSendTo (id eventType data : Bytes)
  | join (room client : Nat)
  | leave (room : Nat) (id : Bytes)
  | roomBroadcast (room : Nat) (eventType data : Bytes)
  deriving DecidableEq, Repr

inductive SelectCase
  | newClients
  | deadClients
  | messages
  deriving DecidableEq, Repr

/-- The moves: a new client object, a new room, a new goroutine, an idle goroutine making a
call, the next step of a goroutine, a case of `run`'s `select`, the next step of `run` inside
`broadcast`, a tick of the keepalive ticker at a Unix time, the next step of `keepalive` inside
`broadcast`, and the reader of a client's stream taking an event off `Channel`. A move that
would block changes nothing. -/
inductive Act
  | newClient (id : Bytes) (bufferSize : Int)
  | newRoom
  | spawn
  | call (i : Nat) (c : Call)
  | callerStep (i : Nat)
  | select (c : SelectCase)
  | range
  | tick (now : Int)
  | keepaliveStep
  | recv (client : Nat)
  deriving DecidableEq, Repr

/-- The event `keepalive` broadcasts at a tick. -/
def keepaliveEvent (now : Int) : Event := ⟨[], lit "keepalive", lit "timestamp:" ++ formatInt now, 0⟩

/-- The event the stream's `Send` and `SendTo` build with `id := s.eventID.Add(1)`. -/
def streamEvent (streamNamespace : Bytes) (id : Nat) (eventType data : Bytes) : Event :=
  ⟨streamNamespace ++ lit "-" ++ formatInt id, eventType, data, 0⟩

namespace Broker

def setClient (b : Broker) (p : Nat) (c : Client) : Broker := { b with clientObjs := b.clientObjs.set p c }

def setCaller (b : Broker) (i : Nat) (pc : CallerPc) : Broker := { b with callers := b.callers.set i pc }

/-- `client.Close()`: `closeOnce` makes a second call do nothing. -/
def closeClient (b : Broker) (p : Nat) : Broker :=
  match b.clientObjs[p]? with
  | some c => b.setClient p { c with closed := true }
  | none => b

/-- A failed `Client.Send` in `broadcast`: `b.droppedCount++`. -/
def drop (b : Broker) (s : Sending) : Broker :=
  if s.counted then { b with droppedCount := b.droppedCount + 1 } else b

/-- One step of a loop of `Client.Send` calls: the `IsClosed` check of the next client, which
makes `Send` return `false` on a closed client, then the `select` that sends on `Channel`,
which panics when `Channel` has been closed since the check, buffers the event when there is
room, and takes the `default` when not. `none` is the end of the loop. -/
def sendStep (b : Broker) (s : Sending) : Except String (Broker × Option Sending) :=
  match s.todo with
  | [] => .ok (b, none)
  | p :: rest =>
      match b.clientObjs[p]? with
      | none => .ok (b, some { s with todo := rest, checked := false })
      | some c =>
          if !s.checked then
            if c.closed then .ok (b.drop s, some { s with todo := rest })
            else .ok (b, some { s with checked := true })
          else if c.closed then .error "send on closed channel"
          else if c.channel.length < c.cap then
            .ok (b.setClient p { c with channel := c.channel ++ [s.event], got := c.got ++ s.serial.toList },
              some { s with todo := rest, checked := false })
          else .ok (b.drop s, some { s with todo := rest, checked := false })

/-- A case of `run`'s `select` on a channel with something buffered: `Store` of a new client,
`Delete` of the ID of a dead one and its `Close`, or a published event, which `run` counts and
starts to `broadcast` to the clients the map holds. -/
def runSelect (b : Broker) : SelectCase → Broker
  | .newClients =>
      match b.newClients with
      | [] => b
      | p :: rest =>
          match b.clientObjs[p]? with
          | some c => { b with newClients := rest, clients := b.clients.set c.id p, totalClients := b.totalClients + 1 }
          | none => { b with newClients := rest }
  | .deadClients =>
      match b.deadClients with
      | [] => b
      | p :: rest =>
          match b.clientObjs[p]? with
          | some c => { b with deadClients := rest, clients := b.clients.delete c.id }.closeClient p
          | none => { b with deadClients := rest }
  | .messages =>
      match b.messages with
      | [] => b
      | (n, e) :: rest =>
          { b with messages := rest, messagesCount := b.messagesCount + 1, taken := b.taken ++ [n],
                   runPc := some ⟨e, some n, b.clients.map Prod.snd, false, true⟩ }

/-- An idle goroutine `i` makes a call. `Register` counts the clients first and returns its
error at `maxClients`; `PublishToClient` and `SendTo` load the client first; the stream's
`Send` and `SendTo` take the next event ID. -/
def call (b : Broker) (i : Nat) : Call → Broker
  | .register p => if b.maxClients ≤ b.clients.length then b else b.setCaller i (.register p)
  | .unregister p => b.setCaller i (.unregister p)
  | .publish e => b.setCaller i (.publish e)
  | .publishToClient id e =>
      match b.clients.get id with
      | some p => b.setCaller i (.sending ⟨e, none, [p], false, false⟩)
      | none => b
  | .send p e => b.setCaller i (.sending ⟨e, none, [p], false, false⟩)
  | .close p => b.closeClient p
  | .streamSend eventType data =>
      { b with eventID := b.eventID + 1 }.setCaller i
        (.publish (streamEvent b.streamNamespace (b.eventID + 1) eventType data))
  | .streamSendTo id eventType data =>
      let e := streamEvent b.streamNamespace (b.eventID + 1) eventType data
      match b.clients.get id with
      | some p => { b with eventID := b.eventID + 1 }.setCaller i (.sending ⟨e, none, [p], false, false⟩)
      | none => { b with eventID := b.eventID + 1 }
  | .join r p =>
      match b.rooms[r]?, b.clientObjs[p]? with
      | some members, some c => { b with rooms := b.rooms.set r (members.set c.id p) }
      | _, _ => b
  | .leave r id =>
      match b.rooms[r]? with
      | some members => { b with rooms := b.rooms.set r (members.delete id) }
      | none => b
  | .roomBroadcast r eventType data =>
      match b.rooms[r]? with
      | some members => b.setCaller i (.sending ⟨⟨[], eventType, data, 0⟩, none, members.map Prod.snd, false, false⟩)
      | none => b

/-- The next step of goroutine `i`: a channel send that goes through when the channel has
room, `Publish` numbering its event, or the next step of its `Client.Send` calls. -/
def callerStep (b : Broker) (i : Nat) : Except String Broker :=
  match b.callers[i]? with
  | some (.register p) =>
      if b.newClients.length < newClientsCap then .ok { (b.setCaller i .idle) with newClients := b.newClients ++ [p] }
      else .ok b
  | some (.unregister p) =>
      if b.deadClients.length < deadClientsCap then
        .ok { (b.setCaller i .idle) with deadClients := b.deadClients ++ [p] }
      else .ok b
  | some (.publish e) =>
      if b.messages.length < messagesCap then
        .ok { (b.setCaller i .idle) with messages := b.messages ++ [(b.published, e)], published := b.published + 1 }
      else .ok b
  | some (.sending s) =>
      match b.sendStep s with
      | .error msg => .error msg
      | .ok (b, none) => .ok (b.setCaller i .idle)
      | .ok (b, some s) => .ok (b.setCaller i (.sending s))
  | _ => .ok b

/-- The reader of a client's stream takes the oldest buffered event. -/
def recv (b : Broker) (p : Nat) : Broker :=
  match b.clientObjs[p]? with
  | some c =>
      match c.channel with
      | _ :: rest => b.setClient p { c with channel := rest }
      | [] => b
  | none => b

def step (b : Broker) : Act → Except String Broker
  | .newClient id bufferSize => .ok { b with clientObjs := b.clientObjs ++ [⟨id, [], channelCap bufferSize, false, []⟩] }
  | .newRoom => .ok { b with rooms := b.rooms ++ [[]] }
  | .spawn => .ok { b with callers := b.callers ++ [.idle] }
  | .call i c => if b.callers[i]? = some .idle then .ok (b.call i c) else .ok b
  | .callerStep i => b.callerStep i
  | .select c => if b.runPc = none then .ok (b.runSelect c) else .ok b
  | .range =>
      match b.runPc with
      | none => .ok b
      | some s =>
          match b.sendStep s with
          | .error msg => .error msg
          | .ok (b, s) => .ok { b with runPc := s }
  | .tick now =>
      if b.keepPc = none then .ok { b with keepPc := some ⟨keepaliveEvent now, none, b.clients.map Prod.snd, false, true⟩ }
      else .ok b
  | .keepaliveStep =>
      match b.keepPc with
      | none => .ok b
      | some s =>
          match b.sendStep s with
          | .error msg => .error msg
          | .ok (b, s) => .ok { b with keepPc := s }
  | .recv p => .ok (b.recv p)

/-- An interleaving of the goroutines' moves, stopping at the first panic. -/
def run (b : Broker) : List Act → Except String Broker
  | [] => .ok b
  | a :: acts =>
      match b.step a with
      | .error msg => .error msg
      | .ok b => b.run acts

end Broker

/-- `l'` keeps every client of `l` with its ID and the serial numbers it got, and may hold more
clients after them, which got nothing. -/
structure Keeps (l l' : List Client) : Prop where
  length_le : l.length ≤ l'.length
  same : ∀ (p : Nat) (c c' : Client), l[p]? = some c → l'[p]? = some c' → c'.id = c.id ∧ c'.got = c.got
  fresh : ∀ (p : Nat) (c' : Client), l[p]? = none → l'[p]? = some c' → c'.got = []

namespace Keeps

variable {l l' : List Client}

theorem refl (l : List Client) : Keeps l l :=
  ⟨le_rfl, fun _ _ _ h h' => by rw [h] at h'; cases h'; exact ⟨rfl, rfl⟩, fun _ _ h h' => by rw [h] at h'; cases h'⟩

theorem set {p : Nat} {c c' : Client} (hp : l[p]? = some c) (hid : c'.id = c.id) (hgot : c'.got = c.got) :
    Keeps l (l.set p c') := by
  refine ⟨by simp, fun q d d' hq hq' => ?_, fun q d' hq hq' => ?_⟩ <;> rw [List.getElem?_set] at hq' <;>
    split_ifs at hq' with hpq
  · subst hpq
    rw [hp] at hq
    cases hq; cases hq'
    exact ⟨hid, hgot⟩
  · rw [hq] at hq'
    cases hq'
    exact ⟨rfl, rfl⟩
  · subst hpq
    rw [hp] at hq
    cases hq
  · rw [hq] at hq'
    cases hq'

theorem append {x : Client} (hx : x.got = []) : Keeps l (l ++ [x]) := by
  refine ⟨by simp, fun q d d' hq hq' => ?_, fun q d' hq hq' => ?_⟩
  · rw [getElem?_append_of_eq_some hq] at hq'
    cases hq'
    exact ⟨rfl, rfl⟩
  · rcases getElem?_concat_eq_some hq' with h | ⟨-, rfl⟩
    · rw [hq] at h; cases h
    · exact hx

theorem got_of (h : Keeps l l') {p : Nat} {c' : Client} (hc' : l'[p]? = some c') :
    (∃ c, l[p]? = some c ∧ c'.got = c.got) ∨ c'.got = [] := by
  cases hp : l[p]? with
  | none => exact .inr (h.fresh p c' hp hc')
  | some c => exact .inl ⟨c, rfl, (h.same p c c' hp hc').2⟩

theorem id_of (h : Keeps l l') {p : Nat} {c : Client} (hc : l[p]? = some c) : ∃ c', l'[p]? = some c' ∧ c'.id = c.id := by
  have hp : p < l'.length := (List.getElem?_eq_some_iff.mp hc).1.trans_le h.length_le
  exact ⟨_, List.getElem?_eq_getElem hp, (h.same p c _ hc (List.getElem?_eq_getElem hp)).1⟩

end Keeps

namespace Broker

variable {b b' : Broker} {s : Sending} {s' : Option Sending}

theorem drop_eq (b : Broker) (s : Sending) : ∃ d, b.drop s = { b with droppedCount := d } := by
  unfold drop
  split <;> exact ⟨_, rfl⟩

theorem sendStep_cases (h : b.sendStep s = .ok (b', s')) :
    (s.todo = [] ∧ b' = b ∧ s' = none) ∨
    (∃ p rest, s.todo = p :: rest ∧ b.clientObjs[p]? = none ∧ b' = b ∧
      s' = some { s with todo := rest, checked := false }) ∨
    (∃ p rest c, s.todo = p :: rest ∧ b.clientObjs[p]? = some c ∧ s.checked = false ∧ c.closed = true ∧
      b' = b.drop s ∧ s' = some { s with todo := rest }) ∨
    (∃ p rest c, s.todo = p :: rest ∧ b.clientObjs[p]? = some c ∧ s.checked = false ∧ c.closed = false ∧
      b' = b ∧ s' = some { s with checked := true }) ∨
    (∃ p rest c, s.todo = p :: rest ∧ b.clientObjs[p]? = some c ∧ s.checked = true ∧ c.closed = false ∧
      c.channel.length < c.cap ∧
      b' = b.setClient p { c with channel := c.channel ++ [s.event], got := c.got ++ s.serial.toList } ∧
      s' = some { s with todo := rest, checked := false }) ∨
    (∃ p rest c, s.todo = p :: rest ∧ b.clientObjs[p]? = some c ∧ s.checked = true ∧ c.closed = false ∧
      c.cap ≤ c.channel.length ∧ b' = b.drop s ∧ s' = some { s with todo := rest, checked := false }) := by
  unfold sendStep at h
  split at h
  · rename_i hs
    cases h
    exact .inl ⟨hs, rfl, rfl⟩
  · rename_i p rest hs
    split at h
    · rename_i hp
      cases h
      exact .inr (.inl ⟨p, rest, hs, hp, rfl, rfl⟩)
    · rename_i c hp
      cases hch : s.checked <;> cases hcl : c.closed <;> simp only [hch, hcl, Bool.not_false, Bool.not_true,
        if_true, if_false, Bool.false_eq_true, reduceCtorEq] at h
      · cases h
        exact .inr (.inr (.inr (.inl ⟨p, rest, c, hs, hp, rfl, hcl, rfl, rfl⟩)))
      · cases h
        exact .inr (.inr (.inl ⟨p, rest, c, hs, hp, rfl, hcl, rfl, rfl⟩))
      · split_ifs at h with hroom
        · cases h
          exact .inr (.inr (.inr (.inr (.inl ⟨p, rest, c, hs, hp, rfl, hcl, hroom, by rw [hcl], rfl⟩))))
        · cases h
          exact .inr (.inr (.inr (.inr (.inr ⟨p, rest, c, hs, hp, rfl, hcl, Nat.le_of_not_lt hroom, rfl, rfl⟩))))

theorem closeClient_eq (b : Broker) (p : Nat) :
    ∃ l, Keeps b.clientObjs l ∧ b.closeClient p = { b with clientObjs := l } := by
  unfold closeClient
  split
  · rename_i hc
    exact ⟨_, Keeps.set hc (by rfl) (by rfl), rfl⟩
  · exact ⟨_, Keeps.refl _, rfl⟩

theorem sendStep_frame (h : b.sendStep s = .ok (b', s')) (hs : s.serial = none) :
    ∃ l d, Keeps b.clientObjs l ∧ b' = { b with clientObjs := l, droppedCount := d } := by
  rcases sendStep_cases h with ⟨-, rfl, -⟩ | ⟨_, _, -, -, rfl, -⟩ | ⟨_, _, _, -, -, -, -, rfl, -⟩ |
    ⟨_, _, _, -, -, -, -, rfl, -⟩ | ⟨p, _, c, -, hp, -, -, -, rfl, -⟩ | ⟨_, _, _, -, -, -, -, -, rfl, -⟩
  · exact ⟨_, _, Keeps.refl _, rfl⟩
  · exact ⟨_, _, Keeps.refl _, rfl⟩
  · obtain ⟨d, hd⟩ := drop_eq b s
    exact ⟨_, _, Keeps.refl _, hd⟩
  · exact ⟨_, _, Keeps.refl _, rfl⟩
  · refine ⟨_, _, Keeps.set hp ?_ ?_, rfl⟩ <;> simp [hs]
  · obtain ⟨d, hd⟩ := drop_eq b s
    exact ⟨_, _, Keeps.refl _, hd⟩

theorem sendStep_serial (h : b.sendStep s = .ok (b', s')) : ∀ s'', s' = some s'' → s''.serial = s.serial := by
  rcases sendStep_cases h with ⟨-, -, rfl⟩ | ⟨_, _, -, -, -, rfl⟩ | ⟨_, _, _, -, -, -, -, -, rfl⟩ |
    ⟨_, _, _, -, -, -, -, -, rfl⟩ | ⟨_, _, _, -, -, -, -, -, -, rfl⟩ | ⟨_, _, _, -, -, -, -, -, -, rfl⟩ <;>
    rintro _ ⟨⟩ <;> rfl

end Broker

/-- The serial number of the event a goroutine is sending, if any. -/
def CallerPc.serial : CallerPc → Option Nat
  | .sending s => s.serial
  | _ => none

theorem serial_set {cs : List CallerPc} (h : ∀ q ∈ cs, q.serial = none) {pc : CallerPc} (hpc : pc.serial = none)
    (i : Nat) : ∀ q ∈ cs.set i pc, q.serial = none :=
  fun q hq => (List.mem_or_eq_of_mem_set hq).elim (h q) (· ▸ hpc)

namespace Broker

/-- The clients the `broadcast` of `run` has still to visit. -/
def pending (b : Broker) : List Nat := (b.runPc.map Sending.todo).getD []

/-- The serial numbers client `p` may have got: those `run` took off `messages`, all but the last
while its `broadcast` has still to visit `p`. -/
def bound (b : Broker) (p : Nat) : List Nat := if p ∈ b.pending then b.taken.dropLast else b.taken

theorem ite_dropLast_sublist (c : Prop) [Decidable c] (t : List Nat) : (if c then t.dropLast else t) <+ t := by
  split
  · exact t.dropLast_sublist
  · exact List.Sublist.refl t

theorem bound_sublist (b : Broker) (p : Nat) : b.bound p <+ b.taken := ite_dropLast_sublist _ _

theorem bound_mono {todo rest taken : List Nat} (hsub : ∀ x ∈ rest, x ∈ todo) (q : Nat) :
    (if q ∈ todo then taken.dropLast else taken) <+ if q ∈ rest then taken.dropLast else taken := by
  by_cases hq : q ∈ rest
  · rw [if_pos (hsub q hq), if_pos hq]
  · rw [if_neg hq]
    exact ite_dropLast_sublist _ _

theorem append_getLast?_sublist {l t : List Nat} (h : l <+ t.dropLast) : l ++ t.getLast?.toList <+ t := by
  cases ht : t.getLast? with
  | none => simpa [List.getLast?_eq_none_iff.mp ht] using h
  | some a =>
      calc l ++ [a] <+ t.dropLast ++ [a] := h.append (List.Sublist.refl _)
        _ = t := List.dropLast_append_getLast? a ht

/-- What the order of delivery rests on. The serial numbers `run` took and those still on
`messages` are the ones `Publish` handed out, in order; the clients map has one entry per ID,
naming a client of that ID; the `broadcast` of `run` carries the last serial number taken and
visits each client once, and every other `Client.Send` carries none; a client got serial numbers
within its bound, in order. -/
structure Delivered (b : Broker) : Prop where
  serials : b.taken ++ b.messages.map Prod.fst = List.range b.published
  keys_nodup : (b.clients.map Prod.fst).Nodup
  ids : ∀ e ∈ b.clients, ∃ c, b.clientObjs[e.2]? = some c ∧ c.id = e.1
  run_serial : ∀ s, b.runPc = some s → s.serial = b.taken.getLast? ∧ s.todo.Nodup
  keep_serial : b.keepPc.bind Sending.serial = none
  callers_serial : ∀ pc ∈ b.callers, pc.serial = none
  got : ∀ (p : Nat) (c : Client), b.clientObjs[p]? = some c → c.got <+ b.bound p

/-- A move that keeps the clients, the clients map, the published events and the loop of `run`. -/
structure Unmoved (b b' : Broker) : Prop where
  keeps : Keeps b.clientObjs b'.clientObjs
  clients : b'.clients = b.clients
  messages : b'.messages = b.messages
  published : b'.published = b.published
  taken : b'.taken = b.taken
  runPc : b'.runPc = b.runPc

namespace Delivered

variable {b b' : Broker} {s : Sending} {i p : Nat} {c : Client}

theorem got_taken (h : Delivered b) (hc : b.clientObjs[p]? = some c) : c.got <+ b.taken :=
  (h.got p c hc).trans (b.bound_sublist p)

theorem values_nodup (h : Delivered b) : (b.clients.map Prod.snd).Nodup :=
  (h.keys_nodup.of_map _).map_on fun x hx y hy hxy => by
    obtain ⟨c, hc, hid⟩ := h.ids x hx
    obtain ⟨c', hc', hid'⟩ := h.ids y hy
    rw [hxy, hc'] at hc
    cases hc
    exact Prod.ext (hid.symm.trans hid') hxy

theorem unmoved (h : Delivered b) (hu : Unmoved b b') (hkeep : b'.keepPc.bind Sending.serial = none)
    (hcallers : ∀ pc ∈ b'.callers, pc.serial = none) : Delivered b' := by
  refine ⟨?_, hu.clients ▸ h.keys_nodup, fun e he => ?_, ?_, hkeep, hcallers, fun q c' hc' => ?_⟩
  · rw [hu.taken, hu.messages, hu.published]
    exact h.serials
  · obtain ⟨c, hc, hid⟩ := h.ids e (hu.clients ▸ he)
    obtain ⟨c', hc', hid'⟩ := hu.keeps.id_of hc
    exact ⟨c', hc', hid'.trans hid⟩
  · rw [hu.runPc, hu.taken]
    exact h.run_serial
  · rw [show b'.bound q = b.bound q by simp only [bound, pending, hu.runPc, hu.taken]]
    rcases hu.keeps.got_of hc' with ⟨c, hc, hgot⟩ | hgot
    · exact hgot ▸ h.got q c hc
    · exact hgot ▸ List.nil_sublist _

theorem withClients (h : Delivered b) {l : List Client} (hk : Keeps b.clientObjs l) (d : Nat) :
    Delivered { b with clientObjs := l, droppedCount := d } :=
  h.unmoved ⟨hk, rfl, rfl, rfl, rfl, rfl⟩ h.keep_serial h.callers_serial

theorem same (h : Delivered b)
    (hs : (b'.clientObjs, b'.clients, b'.messages, b'.published, b'.taken, b'.runPc, b'.keepPc, b'.callers) =
      (b.clientObjs, b.clients, b.messages, b.published, b.taken, b.runPc, b.keepPc, b.callers)) :
    Delivered b' := by
  simp only [Prod.mk.injEq] at hs
  obtain ⟨h1, h2, h3, h4, h5, h6, h7, h8⟩ := hs
  exact h.unmoved ⟨h1 ▸ Keeps.refl _, h2, h3, h4, h5, h6⟩ (h7 ▸ h.keep_serial) (h8 ▸ h.callers_serial)

theorem setCaller (h : Delivered b) {pc : CallerPc} (hpc : pc.serial = none) : Delivered (b.setCaller i pc) :=
  h.unmoved ⟨Keeps.refl _, rfl, rfl, rfl, rfl, rfl⟩ h.keep_serial (serial_set h.callers_serial hpc i)

theorem closeClient (h : Delivered b) (p : Nat) : Delivered (b.closeClient p) := by
  obtain ⟨l, hk, he⟩ := closeClient_eq b p
  rw [he]
  exact h.withClients hk b.droppedCount

theorem call (h : Delivered b) (i : Nat) (c : Call) : Delivered (b.call i c) := by
  cases c with
  | close p => exact h.closeClient p
  | streamSend _ _ =>
      have h' : Delivered { b with eventID := b.eventID + 1 } := h.same rfl
      exact h'.setCaller (by rfl)
  | unregister _ | publish _ | send _ _ => exact h.setCaller (by rfl)
  | register _ | publishToClient _ _ | roomBroadcast _ _ _ =>
      simp only [Broker.call]
      split
      · first | exact h | exact h.setCaller (by rfl)
      · first | exact h | exact h.setCaller (by rfl)
  | streamSendTo _ _ _ =>
      have h' : Delivered { b with eventID := b.eventID + 1 } := h.same rfl
      simp only [Broker.call]
      split
      · exact h'.setCaller (by rfl)
      · exact h'
  | join _ _ | leave _ _ =>
      simp only [Broker.call]
      split <;> exact h.same rfl

theorem publish (h : Delivered b) (e : Event) :
    Delivered { b with messages := b.messages ++ [(b.published, e)], published := b.published + 1 } :=
  ⟨by simp [List.range_succ, ← h.serials], h.keys_nodup, h.ids, h.run_serial, h.keep_serial, h.callers_serial, h.got⟩

theorem callerStep (h : Delivered b) (hs : b.callerStep i = .ok b') : Delivered b' := by
  unfold Broker.callerStep at hs
  split at hs
  · split_ifs at hs <;> cases hs
    · exact (h.setCaller (by rfl)).same rfl
    · exact h
  · split_ifs at hs <;> cases hs
    · exact (h.setCaller (by rfl)).same rfl
    · exact h
  · split_ifs at hs <;> cases hs
    · exact (h.setCaller (by rfl)).publish _
    · exact h
  · rename_i s hi
    have hs0 : s.serial = none := h.callers_serial _ (List.getElem?_mem hi)
    split at hs
    · cases hs
    · rename_i b₁ hb
      cases hs
      obtain ⟨l, d, hk, rfl⟩ := sendStep_frame hb hs0
      exact (h.withClients hk d).setCaller (by rfl)
    · rename_i b₁ s₁ hb
      cases hs
      obtain ⟨l, d, hk, rfl⟩ := sendStep_frame hb hs0
      exact (h.withClients hk d).setCaller ((sendStep_serial hb s₁ rfl).trans hs0)
  · cases hs
    exact h

theorem runSelect (h : Delivered b) : ∀ c, Delivered (b.runSelect c)
  | .newClients => by
      simp only [Broker.runSelect]
      split
      · exact h
      · split
        · rename_i c hc
          refine ⟨h.serials, GoMap.nodup_set h.keys_nodup _ _, fun ⟨k, v⟩ he => ?_, h.run_serial, h.keep_serial,
            h.callers_serial, h.got⟩
          rcases GoMap.mem_set he with ⟨rfl, rfl⟩ | he
          · exact ⟨c, hc, rfl⟩
          · exact h.ids _ he
        · exact h.same rfl
  | .deadClients => by
      simp only [Broker.runSelect]
      split
      · exact h
      · split
        · refine Delivered.closeClient ?_ _
          exact ⟨h.serials, GoMap.nodup_delete h.keys_nodup _, fun ⟨_, _⟩ he => h.ids _ (GoMap.mem_delete he).1,
            h.run_serial, h.keep_serial, h.callers_serial, h.got⟩
        · exact h.same rfl
  | .messages => by
      simp only [Broker.runSelect]
      split
      · exact h
      · rename_i n e rest hm
        refine ⟨?_, h.keys_nodup, h.ids, ?_, h.keep_serial, h.callers_serial, fun q c hc => ?_⟩
        · simp [← h.serials, hm]
        · rintro s ⟨⟩
          exact ⟨(List.getLast?_concat _).symm, h.values_nodup⟩
        · have hq := h.got_taken hc
          simp only [bound, pending, Option.map_some', Option.getD_some, List.dropLast_concat]
          split
          · exact hq
          · exact hq.trans (List.sublist_append_left _ _)

theorem advance (h : Delivered b) (hr : b.runPc = some s) {s' : Option Sending}
    (hs' : ∀ s'', s' = some s'' → s''.serial = s.serial ∧ s''.todo <+ s.todo) (d : Nat) :
    Delivered { b with runPc := s', droppedCount := d } := by
  obtain ⟨hser, hnd⟩ := h.run_serial s hr
  refine ⟨h.serials, h.keys_nodup, h.ids, fun s'' hs'' => ?_, h.keep_serial, h.callers_serial,
    fun q c hc => (h.got q c hc).trans ?_⟩
  · obtain ⟨h1, h2⟩ := hs' s'' hs''
    exact ⟨h1.trans hser, hnd.sublist h2⟩
  · simp only [bound, pending, hr, Option.map_some', Option.getD_some]
    apply bound_mono
    cases s' with
    | none => simp
    | some s'' => exact (hs' s'' rfl).2.subset

theorem skip (h : Delivered b) (hr : b.runPc = some s) {rest : List Nat} (hts : s.todo = p :: rest)
    (s' : Sending) (hser : s'.serial = s.serial) (htodo : s'.todo = rest) (d : Nat) :
    Delivered { b with runPc := some s', droppedCount := d } :=
  h.advance hr (by rintro _ ⟨⟩; exact ⟨hser, htodo ▸ hts ▸ List.sublist_cons_self p rest⟩) d

theorem deliver (h : Delivered b) (hr : b.runPc = some s) {rest : List Nat} (hts : s.todo = p :: rest)
    (hp : b.clientObjs[p]? = some c) (channel : List Event) :
    Delivered { b.setClient p { c with channel := channel, got := c.got ++ s.serial.toList } with
      runPc := some { s with todo := rest, checked := false } } := by
  obtain ⟨hser, hnd⟩ := h.run_serial s hr
  rw [hts, List.nodup_cons] at hnd
  refine ⟨h.serials, h.keys_nodup, fun e he => ?_, fun s' hs' => ?_, h.keep_serial, h.callers_serial,
    fun q d hq => ?_⟩
  · obtain ⟨d, hd, hid⟩ := h.ids e he
    by_cases hpe : p = e.2
    · subst hpe
      rw [hp] at hd
      cases hd
      exact ⟨_, List.getElem?_set_self (List.getElem?_eq_some_iff.mp hp).1, hid⟩
    · exact ⟨d, (List.getElem?_set_ne hpe).trans hd, hid⟩
  · cases hs'
    exact ⟨hser, hnd.2⟩
  · have hbound : (if q ∈ p :: rest then b.taken.dropLast else b.taken) = b.bound q := by
      simp only [bound, pending, hr, hts, Option.map_some', Option.getD_some]
    simp only [setClient, List.getElem?_set] at hq
    simp only [bound, pending, setClient, Option.map_some', Option.getD_some]
    split_ifs at hq with hpq
    · subst hpq
      cases hq
      have hc := h.got p c hp
      rw [← hbound, if_pos (List.mem_cons_self p rest)] at hc
      rw [if_neg hnd.1, hser]
      exact append_getLast?_sublist hc
    · exact (h.got q d hq).trans (hbound ▸ bound_mono (fun x hx => List.mem_cons_of_mem p hx) q)

theorem range (h : Delivered b) (hs : b.step .range = .ok b') : Delivered b' := by
  simp only [Broker.step] at hs
  split at hs
  · cases hs
    exact h
  · rename_i s hr
    split at hs
    · cases hs
    · rename_i b₁ s₁ hb
      cases hs
      obtain ⟨d, hd⟩ := drop_eq b s
      rcases sendStep_cases hb with ⟨-, rfl, rfl⟩ | ⟨_, _, hts, -, rfl, rfl⟩ | ⟨_, _, _, hts, -, -, -, rfl, rfl⟩ |
        ⟨_, _, _, -, -, -, -, rfl, rfl⟩ | ⟨_, _, _, hts, hp, -, -, -, rfl, rfl⟩ | ⟨_, _, _, hts, -, -, -, -, rfl, rfl⟩
      · exact h.advance hr (by rintro _ ⟨⟩) _
      · exact h.skip hr hts _ (by rfl) (by rfl) _
      · rw [hd]
        exact h.skip hr hts _ (by rfl) (by rfl) d
      · exact h.advance hr (by rintro _ ⟨⟩; exact ⟨rfl, List.Sublist.refl _⟩) _
      · exact h.deliver hr hts hp _
      · rw [hd]
        exact h.skip hr hts _ (by rfl) (by rfl) d

theorem keepaliveStep (h : Delivered b) (hs : b.step .keepaliveStep = .ok b') : Delivered b' := by
  simp only [Broker.step] at hs
  split at hs
  · cases hs
    exact h
  · rename_i s hk
    have hs0 : s.serial = none := by simpa [hk] using h.keep_serial
    split at hs
    · cases hs
    · rename_i b₁ s₁ hb
      cases hs
      obtain ⟨l, d, hkeeps, rfl⟩ := sendStep_frame hb hs0
      refine h.unmoved ⟨hkeeps, rfl, rfl, rfl, rfl, rfl⟩ ?_ h.callers_serial
      cases s₁ with
      | none => rfl
      | some s'' => exact (sendStep_serial hb s'' rfl).trans hs0

theorem recv (h : Delivered b) (p : Nat) : Delivered (b.recv p) := by
  unfold Broker.recv
  split
  · rename_i c hc
    split
    · exact h.withClients (Keeps.set hc (by rfl) (by rfl)) b.droppedCount
    · exact h
  · exact h

theorem step (h : Delivered b) {a : Act} (hs : b.step a = .ok b') : Delivered b' := by
  cases a with
  | newClient id bufferSize =>
      cases hs
      exact h.unmoved ⟨Keeps.append rfl, rfl, rfl, rfl, rfl, rfl⟩ h.keep_serial h.callers_serial
  | newRoom =>
      cases hs
      exact h.same rfl
  | spawn =>
      cases hs
      refine h.unmoved ⟨Keeps.refl _, rfl, rfl, rfl, rfl, rfl⟩ h.keep_serial fun q hq => ?_
      rcases List.mem_append.mp hq with hq | hq
      · exact h.callers_serial q hq
      · rw [List.mem_singleton.mp hq]
        rfl
  | call i c =>
      simp only [Broker.step] at hs
      split_ifs at hs <;> cases hs
      · exact h.call i c
      · exact h
  | callerStep i => exact h.callerStep hs
  | select c =>
      simp only [Broker.step] at hs
      split_ifs at hs <;> cases hs
      · exact h.runSelect c
      · exact h
  | range => exact h.range hs
  | tick now =>
      simp only [Broker.step] at hs
      split_ifs at hs <;> cases hs
      · exact h.unmoved ⟨Keeps.refl _, rfl, rfl, rfl, rfl, rfl⟩ rfl h.callers_serial
      · exact h
  | keepaliveStep => exact h.keepaliveStep hs
  | recv p =>
      cases hs
      exact h.recv p

theorem run (h : Delivered b) {acts : List Act} (hs : b.run acts = .ok b') : Delivered b' := by
  induction acts generalizing b with
  | nil =>
      cases hs
      exact h
  | cons a acts ih =>
      unfold Broker.run at hs
      split at hs
      · cases hs
      · exact ih (h.step ‹_›) hs

end Delivered

theorem delivered_newStreamOn (maxClients : Int) (streamNamespace : Bytes) :
    Delivered (newStreamOn maxClients streamNamespace) :=
  ⟨rfl, List.nodup_nil, fun _ h => absurd h (List.not_mem_nil _), fun _ h => (by cases h), rfl,
    fun _ h => absurd h (List.not_mem_nil _), fun _ _ h => (by simp [newStreamOn, newBroker] at h)⟩

/-- Each client gets the events `Publish` put through the broker in the order they were
published, each at most once: the serial numbers it got are a sublist of `0, 1, …`, up to the
number of events published. Events sent to one client, keepalives and room broadcasts carry no
serial number. -/
theorem run_delivers_in_order {maxClients : Int} {streamNamespace : Bytes} {acts : List Act} {b : Broker}
    (h : (newStreamOn maxClients streamNamespace).run acts = .ok b) {p : Nat} {c : Client}
    (hc : b.clientObjs[p]? = some c) : c.got <+ List.range b.published := by
  have hd := (delivered_newStreamOn maxClients streamNamespace).run h
  calc c.got <+ b.taken := hd.got_taken hc
    _ <+ b.taken ++ b.messages.map Prod.fst := List.sublist_append_left _ _
    _ = List.range b.published := hd.serials

/-- One client, two events published and broadcast by `run`: the client got both, in order. -/
theorem run_delivers_in_order_two_events :
    let c : Client := ⟨lit "a", [⟨lit "1", lit "t", lit "d", 0⟩, ⟨lit "2", lit "t", lit "e", 0⟩], 100, false, [0, 1]⟩
    let b : Broker := ⟨[c], [(lit "a", 0)], [], [], [], 1, 2, 0, 10000, none, none, [.idle], [], [], 0, 2, [0, 1]⟩
    (newStreamOn 0 []).run [.newClient (lit "a") 0, .spawn, .call 0 (.register 0), .callerStep 0,
        .select .newClients, .call 0 (.publish ⟨lit "1", lit "t", lit "d", 0⟩), .callerStep 0,
        .call 0 (.publish ⟨lit "2", lit "t", lit "e", 0⟩), .callerStep 0, .select .messages, .range, .range, .range,
        .select .messages, .range, .range, .range] = .ok b ∧
      b.clientObjs[0]? = some c ∧ c.got <+ List.range b.published :=
  have h : (newStreamOn 0 []).run [.newClient (lit "a") 0, .spawn, .call 0 (.register 0), .callerStep 0,
      .select .newClients, .call 0 (.publish ⟨lit "1", lit "t", lit "d", 0⟩), .callerStep 0,
      .call 0 (.publish ⟨lit "2", lit "t", lit "e", 0⟩), .callerStep 0, .select .messages, .range, .range, .range,
      .select .messages, .range, .range, .range] =
      .ok ⟨[⟨lit "a", [⟨lit "1", lit "t", lit "d", 0⟩, ⟨lit "2", lit "t", lit "e", 0⟩], 100, false, [0, 1]⟩],
        [(lit "a", 0)], [], [], [], 1, 2, 0, 10000, none, none, [.idle], [], [], 0, 2, [0, 1]⟩ := rfl
  ⟨h, rfl, run_delivers_in_order h (p := 0) rfl⟩

end Broker

end FastServer.Sse
