import FastServer.Parser
import FastServer.Radix

namespace FastServer.Core

open Request Response Parser Radix

/-- `StateReading`, `StateProcessing`, `StateWriting`, `StateKeepalive`. -/
inductive ConnState
  | reading
  | processing
  | writing
  | keepalive
  deriving DecidableEq, Repr

/-- The pools the engine leases objects from and puts them back to. -/
inductive PoolKind
  /-- `Engine.connectionPool` -/
  | connection
  /-- the 8192-byte tier of `Engine.bytePool` -/
  | bytes
  /-- the request pool of package http, behind `AcquireRequest` and `ReleaseRequest` -/
  | httpRequest
  /-- `Engine.requestPool` -/
  | engineRequest
  /-- `Engine.contextPool` -/
  | engineContext
  deriving DecidableEq, Repr

/-- The size `acceptConnections` asks `bytePool.Get` for. -/
def readBufSize : Nat := 8192

/-- A `Connection`. Objects from a pool carry their identity; `readBuf` is the buffer's identity
and length, and `received` is `readBuf[:readOffset]`. -/
structure Connection where
  obj : Nat
  fd : Int
  state : ConnState
  readBuf : Option (Nat × Nat)
  received : Bytes
  request : Option (Nat × Request)
  context : Option Nat
  deriving DecidableEq, Repr

/-- `readOffset`. -/
def Connection.readOffset (c : Connection) : Nat := c.received.length

/-- The pooled objects `closeConnection` puts back for a connection, in its order: the request
into `Engine.requestPool`, the context into `contextPool`, the read buffer into `bytePool` (whose
8192-byte tier a buffer of capacity 8192 goes back to), and the connection into
`connectionPool`. -/
def Connection.pooled (c : Connection) : List (PoolKind × Nat) :=
  (c.request.map fun r => (PoolKind.engineRequest, r.1)).toList ++
    (c.context.map fun id => (PoolKind.engineContext, id)).toList ++
    (c.readBuf.map fun b => (PoolKind.bytes, b.1)).toList ++ [(.connection, c.obj)]

/-- An `Engine` as its event loop sees it: the router, the connection table, the client fds
registered with the poller, and, for the pools, every object leased and every object put back
(each `sync.Pool.Get` is taken to call `New`, so every lease is a fresh object). `dispatched`
and `sent` record the requests handed to `processRequest` and the bytes written, per fd. -/
structure Engine (H : Type) where
  router : RadixRouter H
  connections : GoMap Int Connection
  watched : List Int
  nextObj : Nat
  leased : List (PoolKind × Nat)
  returned : List (PoolKind × Nat)
  dispatched : List (Int × Request)
  sent : List (Int × Bytes)

/-- `NewEngine()` with the routes already registered in `router`. -/
def newEngine {H : Type} (router : RadixRouter H) : Engine H := ⟨router, [], [], 0, [], [], [], []⟩

/-- What a handler does with a request and its params: the bytes it writes on the connection,
or its panic, which the engine does not recover. -/
abbrev Serve (H : Type) := H → Request → Params → Except String Bytes

/-- What `syscall.Read(conn.fd, conn.readBuf[conn.readOffset:])` returns: `EAGAIN`, another
error, or `n` bytes (`n = 0` at end of file). -/
inductive ReadResult
  | eagain
  | error
  | data (chunk : Bytes)
  deriving DecidableEq, Repr

/-- The event loop's steps: a round of `acceptConnections` for a new fd (`SetNonblock` and
`poller.Add` succeed or fail), a readable event for an fd, and a pass of the idle reaper, where
`idle` says which connections have been idle too long (the clock is not modelled). -/
inductive Event
  | accept (nfd : Int) (nonblockOk addOk : Bool)
  | readable (fd : Int) (r : ReadResult)
  | reap (idle : Int → Bool)

namespace Engine

variable {H : Type} (serve : Serve H)

/-- `Get` on a pool: a fresh object. -/
@[simp] def lease (e : Engine H) (k : PoolKind) : Engine H × Nat :=
  ({ e with nextObj := e.nextObj + 1, leased := e.leased ++ [(k, e.nextObj)] }, e.nextObj)

/-- `Put` on a pool. -/
@[simp] def giveBack (e : Engine H) (k : PoolKind) (id : Nat) : Engine H :=
  { e with returned := e.returned ++ [(k, id)] }

/-- A store through the `*Connection`: the table entry is the connection itself. -/
@[simp] def setConn (e : Engine H) (c : Connection) : Engine H :=
  { e with connections := e.connections.set c.fd c }

/-- `syscall.Write(fd, b)`, taken to write every byte. -/
@[simp] def write (e : Engine H) (fd : Int) (b : Bytes) : Engine H := { e with sent := e.sent ++ [(fd, b)] }

/-- The `response` that `sendError` builds: a status line and a blank line. -/
def errorResponse (code : Int) (message : Bytes) : Bytes :=
  lit "HTTP/1.1 " ++ appendInt [] code ++ [space] ++ message ++ lit "\r\n\r\n"

/-- `sendError`'s response is a status line and no header: a client finds no `Content-Length` in
it and cannot tell where it ends, whatever follows it. -/
theorem delimit_errorResponse (code : Int) {message : Bytes} (hm : cr ∉ message) (rest : Bytes) :
    delimit (errorResponse code message ++ rest) = none := by
  have hline : cr ∉ lit "HTTP/1.1 " ++ appendInt [] code ++ [space] ++ message := by
    simp [hm, cr_not_mem_appendInt, show cr ∉ lit "HTTP/1.1 " by decide, show cr ≠ space by decide]
  have hstream : errorResponse code message ++ rest =
      (lit "HTTP/1.1 " ++ appendInt [] code ++ [space] ++ message) ++ cr :: lf :: cr :: lf :: rest := by
    simp [errorResponse, show lit "\r\n\r\n" = [cr, lf, cr, lf] by decide]
  have hpre : hasPrefix (lit "HTTP/1.1 " ++ (appendInt [] code ++ space :: message)) (lit "Content-Length: ") =
      false := hasPrefix_append_of_disagree (by decide) (by decide) _
  rw [delimit, hstream, readHead_line hline [] [] _ (by simp), readHead_blank]
  simp [contentLengths, hpre]

/-- `sendError(conn, code, message)`. -/
@[simp] def sendError (e : Engine H) (fd : Int) (code : Int) (message : Bytes) : Engine H :=
  e.write fd (errorResponse code message)

/-- `closeConnection(fd)`: out of the table and the poller, and its pooled objects put back. -/
def closeConnection (e : Engine H) (fd : Int) : Engine H :=
  match e.connections.get fd with
  | none => e
  | some c =>
      { e with connections := e.connections.delete fd, watched := e.watched.erase fd,
               returned := e.returned ++ c.pooled }

/-- `checkKeepAlive(conn)`: HTTP/1.0 or `Connection: close` closes the connection, which still
holds its request; otherwise the connection reads again and the request goes back through
`ReleaseRequest`. -/
def checkKeepAlive (e : Engine H) (c : Connection) : Engine H :=
  match c.request with
  | none => e
  | some (id, req) =>
      if req.proto = lit "HTTP/1.0" ∨ req.connection = lit "close" then e.closeConnection c.fd
      else (e.giveBack .httpRequest id).setConn { c with state := .reading, received := [], request := none }

/-- `processRequest(conn)`: the router's handler runs inline on a context from `contextPool`;
without one, a 404. -/
def processRequest (e : Engine H) (c : Connection) : Except String (Engine H) :=
  match c.request with
  | none => .ok e
  | some (_, req) =>
      let e := { e with dispatched := e.dispatched ++ [(c.fd, req)] }
      match e.router.find req.method req.path with
      | .error msg => .error msg
      | .ok (none, _) => .ok ((e.sendError c.fd 404 (lit "Not Found")).checkKeepAlive c)
      | .ok (some h, params) =>
          match serve h req params with
          | .error msg => .error msg
          | .ok out =>
              .ok ((((e.lease .engineContext).1.write c.fd out).giveBack .engineContext
                (e.lease .engineContext).2).checkKeepAlive c)

/-- `handleRead(conn)`. A chunk longer than the free part of the buffer is not a possible read
and changes nothing. `ParseRequest` takes a request from the http pool and, failing, gives it
back; the whole of `readBuf[:readOffset]` is parsed as one request. -/
def handleRead (e : Engine H) (c : Connection) : ReadResult → Except String (Engine H)
  | .eagain => .ok e
  | .error => .ok (e.closeConnection c.fd)
  | .data chunk =>
      let bufLen := (c.readBuf.map (·.2)).getD 0
      if chunk = [] then .ok (e.closeConnection c.fd)
      else if bufLen < c.received.length + chunk.length then .ok e
      else
        let c := { c with received := c.received ++ chunk }
        let e := (e.setConn c).lease .httpRequest
        match parseRequest c.received with
        | .error (.panic msg) => .error msg
        | .error .invalidRequest =>
            let e' := e.1.giveBack .httpRequest e.2
            if bufLen ≤ c.received.length then
              .ok ((e'.sendError c.fd 400 (lit "Bad Request")).closeConnection c.fd)
            else .ok e'
        | .ok req =>
            let c := { c with received := [], request := some (e.2, req), state := .processing }
            (e.1.setConn c).processRequest serve c

/-- `handleConnectionEvent(fd)`. -/
def handleConnectionEvent (e : Engine H) (fd : Int) (r : ReadResult) : Except String (Engine H) :=
  match e.connections.get fd with
  | none => .ok e
  | some c =>
      match c.state with
      | .reading | .keepalive => e.handleRead serve c r
      | .writing => .ok (e.setConn { c with state := .keepalive })
      | .processing => .ok e

/-- One round of `acceptConnections`' loop for the new fd `nfd`. On a failed `poller.Add` the
connection goes back to `connectionPool`, whose `Reset` drops the read buffer. -/
def acceptOne (e : Engine H) (nfd : Int) (nonblockOk addOk : Bool) : Engine H :=
  if nonblockOk then
    let ec := e.lease .connection
    let eb := ec.1.lease .bytes
    let c : Connection := ⟨ec.2, nfd, .reading, some (eb.2, readBufSize), [], none, none⟩
    if addOk then { eb.1.setConn c with watched := eb.1.watched ++ [nfd] }
    else eb.1.giveBack .connection ec.2
  else e

/-- One pass of `cleanupIdleConnections`: every idle connection not in `StateProcessing` is
closed, in table order. -/
def reap (e : Engine H) (idle : Int → Bool) : Engine H :=
  ((e.connections.filter (fun p => p.2.state ≠ .processing ∧ idle p.1 = true)).map Prod.fst).foldl
    closeConnection e

/-- One step of the event loop; the OS never returns an fd that is still open. -/
def step (e : Engine H) : Event → Except String (Engine H)
  | .accept nfd nonblockOk addOk =>
      if (e.connections.get nfd).isSome then .ok e else .ok (e.acceptOne nfd nonblockOk addOk)
  | .readable fd r => e.handleConnectionEvent serve fd r
  | .reap idle => .ok (e.reap idle)

/-- A run of the event loop, stopping at the first panic. -/
def run (e : Engine H) : List Event → Except String (Engine H)
  | [] => .ok e
  | ev :: evs =>
      match e.step serve ev with
      | .error msg => .error msg
      | .ok e' => e'.run evs

section Lemmas

variable {serve} {e e' : Engine H} {c : Connection} {fd : Int}

theorem closeConnection_of_get_none (h : e.connections.get fd = none) : e.closeConnection fd = e := by
  simp [closeConnection, h]

theorem closeConnection_of_get_some (h : e.connections.get fd = some c) :
    e.closeConnection fd = { e with
      connections := e.connections.delete fd, watched := e.watched.erase fd,
      returned := e.returned ++ c.pooled } := by
  simp [closeConnection, h]

theorem processRequest_cases (h : e.processRequest serve c = .ok e') :
    ∃ e₁ : Engine H, e' = e₁.checkKeepAlive c ∧ e₁.connections = e.connections ∧ e₁.watched = e.watched := by
  unfold processRequest at h
  rcases hq : c.request with _ | ⟨id, req⟩
  · simp only [hq, Except.ok.injEq] at h
    exact ⟨e, by simp [checkKeepAlive, hq, h], rfl, rfl⟩
  · simp only [hq] at h
    split at h
    · cases h
    · cases h; exact ⟨_, rfl, rfl, rfl⟩
    · split at h
      · cases h
      · cases h; exact ⟨_, rfl, rfl, rfl⟩

theorem step_readable (hc : e.connections.get fd = some c) (hs : c.state = .reading ∨ c.state = .keepalive)
    (r : ReadResult) : e.step serve (.readable fd r) = e.handleRead serve c r := by
  rcases hs with hs | hs <;> simp [step, handleConnectionEvent, hc, hs]

theorem run_append (evs₁ evs₂ : List Event) (e : Engine H) :
    e.run serve (evs₁ ++ evs₂) = (e.run serve evs₁).bind (·.run serve evs₂) := by
  induction evs₁ generalizing e with
  | nil => rfl
  | cons ev evs ih =>
      simp only [List.cons_append, run]
      cases e.step serve ev with
      | error msg => rfl
      | ok e₁ => exact ih e₁

end Lemmas

end Engine

/-- The pool ledger and the table's fds after a run on an engine with no route and a handler
that writes nothing. -/
def ledger (evs : List Event) : Except String (List (PoolKind × Nat) × List (PoolKind × Nat) × List Int) :=
  ((newEngine (newRadixRouter : RadixRouter Nat)).run (fun _ _ _ => .ok []) evs).map
    fun e => (e.leased, e.returned, e.connections.map Prod.fst)

/-- Two leased objects that neither a live connection owns nor went back to their own pool: a
failed `poller.Add` drops the 8 KiB read buffer, and closing an HTTP/1.0 connection puts its
request into `Engine.requestPool`, not the http pool it came from. -/
theorem accept_and_close_break_pool_ledger :
    ledger [.accept 5 true false] =
        .ok ([(.connection, 0), (.bytes, 1)], [(.connection, 0)], []) ∧
      ledger [.accept 5 true true, .readable 5 (.data (lit "GET / HTTP/1.0\r\nHost: x\r\n\r\n"))] =
        .ok ([(.connection, 0), (.bytes, 1), (.httpRequest, 2)],
          [(.engineRequest, 2), (.bytes, 1), (.connection, 0)], []) := by
  decide

/-- A client's read that starts with `'\n'` crashes the engine: `handleRead` hands the raw
buffer to `ParseRequest` on the event-loop goroutine, and it panics on exactly such buffers. -/
theorem leading_lf_crashes_engine :
    (∀ data, (∃ msg, parseRequest data = .error (.panic msg)) ↔ data.head? = some lf) ∧
      ledger [.accept 5 true true, .readable 5 (.data (lit "\nGET / HTTP/1.1\r\n\r\n"))] =
        .error "index out of range [-1]" :=
  ⟨parseRequest_panic_iff, by decide⟩

/-- The `Reset` that `NewEngine` gives `requestPool`: only the request line and the body are
cleared. -/
def requestPoolReset (r : Request) : Request :=
  { r with method := [], path := [], proto := [], body := [] }

/-- A request a client can send, put back through `requestPool`'s `Reset`, still carries its
query, its `Host` and `Connection` fields and its extra headers, where `Request.Reset` leaves a
fresh request. -/
theorem requestPool_reset_keeps_headers :
    (parseRequest (lit "GET /a?q=1 HTTP/1.1\r\nHost: h\r\nConnection: close\r\nX-Id: 7\r\n\r\n")).map
        requestPoolReset =
      .ok { Request.empty with
        host := lit "h", connection := lit "close", extraHeaders := [(lit "X-Id", lit "7")],
        query := [(lit "q", lit "1")] } ∧
    (parseRequest (lit "GET /a?q=1 HTTP/1.1\r\nHost: h\r\nConnection: close\r\nX-Id: 7\r\n\r\n")).map
        Request.reset = .ok Request.empty := by
  decide

end FastServer.Core
