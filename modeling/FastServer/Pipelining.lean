import FastServer.ConnTable
import FastServer.Context

namespace FastServer.Pipelining

open Request Response Parser Radix Core Engine ConnTable

variable {H : Type} (serve : Serve H) {e e₁ e' : Engine H} {c : Connection} {fd : Int}

/-- The bytes `processRequest` writes for a request: its handler's output, or `sendError`'s 404. -/
def response (router : RadixRouter H) (serve : Serve H) (req : Request) : Except String Bytes :=
  match router.find req.method req.path with
  | .error msg => .error msg
  | .ok (none, _) => .ok (errorResponse 404 (lit "Not Found"))
  | .ok (some h, params) => serve h req params

/-- A request after which `checkKeepAlive` keeps the connection. -/
def KeepAlive (req : Request) : Prop := ¬(req.proto = lit "HTTP/1.0" ∨ req.connection = lit "close")

instance (req : Request) : Decidable (KeepAlive req) := inferInstanceAs (Decidable ¬(_ ∨ _))

/-- A request's bytes cut into reads: none of them empty, and every cut before the last read
inside the request's head. -/
structure Chunking (r : WireRequest) (cs : List Bytes) : Prop where
  flatten_eq : cs.flatten = r.encode
  ne_nil : ∀ ch ∈ cs, ch ≠ []
  cuts_lt : cs.dropLast.flatten.length < r.head.length

instance (r : WireRequest) (cs : List Bytes) : Decidable (Chunking r cs) :=
  decidable_of_iff (cs.flatten = r.encode ∧ (∀ ch ∈ cs, ch ≠ []) ∧ cs.dropLast.flatten.length < r.head.length)
    ⟨fun ⟨a, b, c⟩ => ⟨a, b, c⟩, fun ⟨a, b, c⟩ => ⟨a, b, c⟩⟩

/-- The readable events that deliver the reads `cs` on `fd`. -/
def reads (fd : Int) (cs : List Bytes) : List Event := cs.map fun ch => .readable fd (.data ch)

theorem run_reads_append (e : Engine H) (fd : Int) (cs₁ cs₂ : List Bytes) :
    e.run serve (reads fd (cs₁ ++ cs₂)) = (e.run serve (reads fd cs₁)).bind (·.run serve (reads fd cs₂)) := by
  rw [reads, List.map_append, run_append]; rfl

/-- `e'` is `e` after events on `fd` that left the entry `c` there, dispatched the requests
`reqs` and wrote the responses `outs` on `fd`, in order; the other entries, the poller and the
router are as they were. -/
structure Advanced (fd : Int) (c : Connection) (reqs : List Request) (outs : List Bytes)
    (e e' : Engine H) : Prop where
  connections_eq : e'.connections.get = Function.update e.connections.get fd (some c)
  watched_eq : e'.watched = e.watched
  router_eq : e'.router = e.router
  dispatched_eq : e'.dispatched = e.dispatched ++ reqs.map (fd, ·)
  sent_eq : e'.sent = e.sent ++ outs.map (fd, ·)

namespace Advanced

variable {c₁ c₂ : Connection} {reqs₁ reqs₂ : List Request} {outs₁ outs₂ : List Bytes}

theorem refl (hc : e.connections.get fd = some c) : Advanced fd c [] [] e e :=
  ⟨by rw [← hc, Function.update_eq_self], rfl, rfl, by simp, by simp⟩

theorem trans (h₁ : Advanced fd c₁ reqs₁ outs₁ e e₁) (h₂ : Advanced fd c₂ reqs₂ outs₂ e₁ e') :
    Advanced fd c₂ (reqs₁ ++ reqs₂) (outs₁ ++ outs₂) e e' :=
  ⟨by rw [h₂.connections_eq, h₁.connections_eq, Function.update_idem], h₂.watched_eq.trans h₁.watched_eq,
    h₂.router_eq.trans h₁.router_eq, by simp [h₂.dispatched_eq, h₁.dispatched_eq],
    by simp [h₂.sent_eq, h₁.sent_eq]⟩

theorem get_self (h : Advanced fd c reqs₁ outs₁ e e') : e'.connections.get fd = some c := by
  simp [h.connections_eq]

end Advanced

theorem processRequest_keepAlive {id : Nat} {req : Request} {out : Bytes} (hq : c.request = some (id, req))
    (hka : KeepAlive req) (hout : response e.router serve req = .ok out) :
    ∃ e', e.processRequest serve c = .ok e' ∧
      Advanced c.fd { c with state := .reading, received := [], request := none } [req] [out] e e' := by
  have hka' : ¬(req.proto = lit "HTTP/1.0" ∨ req.connection = lit "close") := hka
  have hadv (e₂ : Engine H) (hc : e₂.connections = e.connections) (hw : e₂.watched = e.watched)
      (hr : e₂.router = e.router) (hd : e₂.dispatched = e.dispatched ++ [(c.fd, req)])
      (hs : e₂.sent = e.sent ++ [(c.fd, out)]) :
      Advanced c.fd { c with state := .reading, received := [], request := none } [req] [out] e
        (e₂.checkKeepAlive c) := by
    simp only [checkKeepAlive, hq, hka', if_false]
    exact ⟨by simp [GoMap.get_set, hc], hw, hr, hd, hs⟩
  rcases hf : e.router.find req.method req.path with msg | ⟨_ | h, params⟩ <;>
    simp only [response, hf] at hout
  · cases hout
  · cases hout
    simp only [processRequest, hq, hf]
    exact ⟨_, rfl, hadv _ rfl rfl rfl rfl rfl⟩
  · simp only [processRequest, hq, hf, hout]
    exact ⟨_, rfl, hadv _ rfl rfl rfl rfl rfl⟩

section Reads

variable {r : WireRequest} {ch out : Bytes} {id : Nat}

theorem bufLen_eq (hbuf : c.readBuf = some (id, readBufSize)) : (c.readBuf.map (·.2)).getD 0 = readBufSize := by
  simp [hbuf]

theorem head_length_le_encode (r : WireRequest) : r.head.length ≤ r.encode.length := by
  simp [WireRequest.encode]

theorem handleRead_partial (hbuf : c.readBuf = some (id, readBufSize)) (hwf : r.WellFormed)
    (hlen : r.encode.length ≤ readBufSize) (hne : ch ≠ []) (hp : c.received ++ ch <+: r.head)
    (hlt : (c.received ++ ch).length < r.head.length) :
    ∃ e', e.handleRead serve c (.data ch) = .ok e' ∧
      Advanced c.fd { c with received := c.received ++ ch } [] [] e e' := by
  have hle := head_length_le_encode r
  have hfit : ¬ readBufSize < c.received.length + ch.length := by
    rw [List.length_append] at hlt; omega
  have hroom : ¬ readBufSize ≤ (c.received ++ ch).length := by omega
  simp only [handleRead, bufLen_eq hbuf, hne, hfit, r.parseRequest_of_prefix hwf hp hlt, hroom, if_false]
  exact ⟨_, rfl, by simp [GoMap.get_set], rfl, rfl, by simp, by simp⟩

theorem handleRead_complete (hbuf : c.readBuf = some (id, readBufSize)) (hwf : r.WellFormed)
    (hlen : r.encode.length ≤ readBufSize) (hne : ch ≠ []) (hr : c.received ++ ch = r.encode)
    (hka : KeepAlive r.toRequest) (hout : response e.router serve r.toRequest = .ok out) :
    ∃ e', e.handleRead serve c (.data ch) = .ok e' ∧
      Advanced c.fd { c with state := .reading, received := [], request := none } [r.toRequest] [out] e e' := by
  have hfit : ¬ readBufSize < c.received.length + ch.length := by
    rw [← List.length_append, hr]; omega
  have hparse : parseRequest (c.received ++ ch) = .ok r.toRequest := hr ▸ r.parseRequest_encode hwf
  simp only [handleRead, bufLen_eq hbuf, hne, hfit, hparse, if_false]
  let c₁ : Connection := { c with received := c.received ++ ch }
  let e₂ := (e.setConn c₁).lease .httpRequest
  let c₂ : Connection := { c₁ with received := [], request := some (e₂.2, r.toRequest), state := .processing }
  have hfirst : Advanced c.fd c₂ [] [] e (e₂.1.setConn c₂) :=
    ⟨by simp [c₂, c₁, e₂, GoMap.get_set], rfl, rfl, by simp [e₂], by simp [e₂]⟩
  obtain ⟨e', he', hadv⟩ := processRequest_keepAlive serve (e := e₂.1.setConn c₂) (c := c₂) rfl hka hout
  exact ⟨e', he', hfirst.trans hadv⟩

theorem run_partial (hwf : r.WellFormed) (hlen : r.encode.length ≤ readBufSize) (cs : List Bytes)
    (hc : e.connections.get c.fd = some c) (hst : c.state = .reading ∨ c.state = .keepalive)
    (hbuf : c.readBuf = some (id, readBufSize)) (hne : ∀ ch ∈ cs, ch ≠ [])
    (hp : c.received ++ cs.flatten <+: r.head) (hlt : (c.received ++ cs.flatten).length < r.head.length) :
    ∃ e', e.run serve (reads c.fd cs) = .ok e' ∧
      Advanced c.fd { c with received := c.received ++ cs.flatten } [] [] e e' := by
  induction cs generalizing e c with
  | nil => exact ⟨e, rfl, by simpa using Advanced.refl hc⟩
  | cons ch cs ih =>
      simp only [List.flatten_cons, ← List.append_assoc] at hp hlt
      have hp₁ : c.received ++ ch <+: r.head := (List.prefix_append _ _).trans hp
      have hlt₁ : (c.received ++ ch).length < r.head.length := by
        simp only [List.length_append] at hlt ⊢; omega
      obtain ⟨e₁, he₁, hadv₁⟩ := handleRead_partial serve (e := e) hbuf hwf hlen
        (hne ch (List.mem_cons_self _ _)) hp₁ hlt₁
      obtain ⟨e', he', hadv'⟩ := ih (c := { c with received := c.received ++ ch }) hadv₁.get_self hst hbuf
        (fun ch' h => hne ch' (List.mem_cons_of_mem _ h)) hp hlt
      refine ⟨e', ?_, ?_⟩
      · simp only [reads, List.map_cons, run, step_readable hc hst, he₁]
        exact he'
      · simpa [List.append_assoc] using hadv₁.trans hadv'

theorem run_request {cs : List Bytes} (hc : e.connections.get c.fd = some c)
    (hst : c.state = .reading ∨ c.state = .keepalive) (hbuf : c.readBuf = some (id, readBufSize))
    (hempty : c.received = []) (hwf : r.WellFormed) (hka : KeepAlive r.toRequest)
    (hlen : r.encode.length ≤ readBufSize) (hcs : Chunking r cs) (hout : response e.router serve r.toRequest = .ok out) :
    ∃ e', e.run serve (reads c.fd cs) = .ok e' ∧
      Advanced c.fd { c with state := .reading, received := [], request := none } [r.toRequest] [out] e e' := by
  have hcs_ne : cs ≠ [] := by
    rintro rfl
    have := hcs.flatten_eq
    simp [WireRequest.encode, WireRequest.head] at this
  have hsplit := List.dropLast_append_getLast hcs_ne
  have hflat : cs.dropLast.flatten ++ cs.getLast hcs_ne = r.encode := by
    rw [← hcs.flatten_eq]; conv_rhs => rw [← hsplit]
    simp
  have hp : cs.dropLast.flatten <+: r.head :=
    List.prefix_of_prefix_length_le (hflat ▸ List.prefix_append _ _) (List.prefix_append _ _)
      (le_of_lt hcs.cuts_lt)
  obtain ⟨e₁, he₁, hadv₁⟩ := run_partial serve (e := e) hwf hlen cs.dropLast hc hst hbuf
    (fun ch h => hcs.ne_nil ch (List.dropLast_subset cs h)) (by simpa [hempty] using hp)
    (by simpa [hempty] using hcs.cuts_lt)
  obtain ⟨e', he', hadv'⟩ := handleRead_complete serve (e := e₁)
    (c := { c with received := c.received ++ cs.dropLast.flatten }) hbuf hwf hlen
    (hcs.ne_nil _ (List.getLast_mem hcs_ne)) (by simpa [hempty] using hflat) hka (hadv₁.router_eq ▸ hout)
  refine ⟨e', ?_, hadv₁.trans hadv'⟩
  rw [← hsplit, run_reads_append, he₁]
  simp only [reads, List.map_cons, List.map_nil, Except.bind, run, step_readable hadv₁.get_self hst, he']

/-- Requests after a first one, from an entry that is reading with an empty buffer: the entry
ends as it started. -/
theorem run_requests {rs : List WireRequest} {css : List (List Bytes)} {reply : WireRequest → Bytes}
    (hc : e.connections.get c.fd = some c) (hst : c.state = .reading) (hbuf : c.readBuf = some (id, readBufSize))
    (hempty : c.received = []) (hreq : c.request = none)
    (hrs : ∀ r ∈ rs, r.WellFormed ∧ KeepAlive r.toRequest ∧ r.encode.length ≤ readBufSize ∧
      response e.router serve r.toRequest = .ok (reply r))
    (hcs : List.Forall₂ Chunking rs css) :
    ∃ e', e.run serve (reads c.fd css.flatten) = .ok e' ∧
      Advanced c.fd c (rs.map WireRequest.toRequest) (rs.map reply) e e' := by
  induction hcs generalizing e with
  | nil => exact ⟨e, rfl, Advanced.refl hc⟩
  | @cons r cs rs css hch _ ih =>
      obtain ⟨hwf, hka, hlen, hout⟩ := hrs r (List.mem_cons_self _ _)
      obtain ⟨e₁, he₁, hadv₁⟩ := run_request serve hc (.inl hst) hbuf hempty hwf hka hlen hch hout
      have hfresh : ({ c with state := .reading, received := [], request := none } : Connection) = c := by
        rw [← hst, ← hempty, ← hreq]
      rw [hfresh] at hadv₁
      obtain ⟨e', he', hadv'⟩ := ih hadv₁.get_self
        (fun r' h => by simpa only [hadv₁.router_eq] using hrs r' (List.mem_cons_of_mem _ h))
      refine ⟨e', ?_, hadv₁.trans hadv'⟩
      rw [List.flatten_cons, run_reads_append, he₁]
      exact he'

end Reads

/-- Keep-alive requests on one connection, each cut into reads that, but for its last, end
inside its head: each request is dispatched once and answered once, in arrival order, and the
connection stays registered, reading, with an empty buffer. -/
theorem pipelined_requests_served_in_order {rs : List WireRequest} {css : List (List Bytes)}
    {reply : WireRequest → Bytes} (hc : e.connections.get c.fd = some c) (hok : ConnOk c.fd c)
    (hempty : c.received = [])
    (hrs : ∀ r ∈ rs, r.WellFormed ∧ KeepAlive r.toRequest ∧ r.encode.length ≤ readBufSize ∧
      response e.router serve r.toRequest = .ok (reply r))
    (hcs : List.Forall₂ Chunking rs css) (hne : rs ≠ []) :
    ∃ e', e.run serve (reads c.fd css.flatten) = .ok e' ∧
      Advanced c.fd { c with state := .reading } (rs.map WireRequest.toRequest) (rs.map reply) e e' := by
  cases hcs with
  | nil => exact absurd rfl hne
  | @cons r cs rs css hch hrest =>
      obtain ⟨hwf, hka, hlen, hout⟩ := hrs r (List.mem_cons_self _ _)
      obtain ⟨id, hbuf⟩ := hok.readBuf_eq
      obtain ⟨e₁, he₁, hadv₁⟩ := run_request serve hc hok.state_ok hbuf hempty hwf hka hlen hch hout
      have hfin : ({ c with state := .reading, received := [], request := none } : Connection) =
          { c with state := .reading } := by
        rw [← hempty, ← hok.request_eq]
      rw [hfin] at hadv₁
      obtain ⟨e', he', hadv'⟩ := run_requests serve (c := { c with state := .reading }) hadv₁.get_self rfl
        hbuf hempty hok.request_eq
        (fun r' h => by simpa only [hadv₁.router_eq] using hrs r' (List.mem_cons_of_mem _ h)) hrest
      refine ⟨e', ?_, hadv₁.trans hadv'⟩
      rw [List.flatten_cons, run_reads_append, he₁]
      exact he'

theorem pipelined_requests_served_in_order_two_requests :
    List.Forall₂ Chunking
        [⟨lit "GET", lit "/a", lit "HTTP/1.1", [(lit "Host", lit "x")], []⟩,
          ⟨lit "POST", lit "/b", lit "HTTP/1.1", [(lit "Host", lit "x")], lit "hi"⟩]
        [[lit "GET /a HT", lit "TP/1.1\r\nHost: x\r\n\r\n"], [lit "POST /b HTTP/1.1\r\nHo", lit "st: x\r\n\r\nhi"]] ∧
      ∃ e', ((newEngine (newRadixRouter : RadixRouter Nat)).acceptOne 5 true true).run (fun _ _ _ => .ok [])
          (reads 5 [[lit "GET /a HT", lit "TP/1.1\r\nHost: x\r\n\r\n"],
            [lit "POST /b HTTP/1.1\r\nHo", lit "st: x\r\n\r\nhi"]].flatten) = .ok e' ∧
        Advanced 5 ⟨0, 5, .reading, some (1, readBufSize), [], none, none⟩
          ([⟨lit "GET", lit "/a", lit "HTTP/1.1", [(lit "Host", lit "x")], []⟩,
            ⟨lit "POST", lit "/b", lit "HTTP/1.1", [(lit "Host", lit "x")], lit "hi"⟩].map WireRequest.toRequest)
          ([⟨lit "GET", lit "/a", lit "HTTP/1.1", [(lit "Host", lit "x")], []⟩,
            ⟨lit "POST", lit "/b", lit "HTTP/1.1", [(lit "Host", lit "x")], lit "hi"⟩].map
              fun _ : WireRequest => errorResponse 404 (lit "Not Found"))
          ((newEngine (newRadixRouter : RadixRouter Nat)).acceptOne 5 true true) e' := by
  have hcs : List.Forall₂ Chunking
      [⟨lit "GET", lit "/a", lit "HTTP/1.1", [(lit "Host", lit "x")], []⟩,
        ⟨lit "POST", lit "/b", lit "HTTP/1.1", [(lit "Host", lit "x")], lit "hi"⟩]
      [[lit "GET /a HT", lit "TP/1.1\r\nHost: x\r\n\r\n"], [lit "POST /b HTTP/1.1\r\nHo", lit "st: x\r\n\r\nhi"]] :=
    .cons (by decide) (.cons (by decide) .nil)
  refine ⟨hcs, pipelined_requests_served_in_order (fun _ _ _ => .ok [])
    (c := ⟨0, 5, .reading, some (1, readBufSize), [], none, none⟩) rfl
    ⟨rfl, .inl rfl, rfl, ⟨1, rfl⟩, by decide⟩ rfl ?_ hcs (List.cons_ne_nil _ _)⟩
  decide

/-- Two requests in one read are parsed as one, the second becoming the body of the first; a read
cut inside a body dispatches its request with the body cut short. -/
theorem one_read_merges_requests_and_body_cut_truncates :
    ((newEngine (newRadixRouter : RadixRouter Nat)).run (fun _ _ _ => .ok [])
        [.accept 5 true true,
          .readable 5 (.data (lit "GET /a HTTP/1.1\r\nHost: x\r\n\r\nGET /b HTTP/1.1\r\nHost: x\r\n\r\n"))]).map
      (·.dispatched) =
      .ok [(5, { Request.empty with
        method := lit "GET", path := lit "/a", proto := lit "HTTP/1.1", host := lit "x",
        body := lit "GET /b HTTP/1.1\r\nHost: x\r\n\r\n" })] ∧
    ((newEngine (newRadixRouter : RadixRouter Nat)).run (fun _ _ _ => .ok [])
        [.accept 5 true true,
          .readable 5 (.data (lit "POST /a HTTP/1.1\r\nHost: x\r\nContent-Length: 2\r\n\r\nh")),
          .readable 5 (.data (lit "i"))]).map (·.dispatched) =
      .ok [(5, { Request.empty with
        method := lit "POST", path := lit "/a", proto := lit "HTTP/1.1", host := lit "x",
        contentLength := lit "2", body := lit "h" })] := by
  decide

/-- A 404 keeps the connection open, but `sendError`'s response has no `Content-Length` for a
client to delimit it by; and `Data` copies a content type with a CRLF into the head, which then
holds a second `Content-Length` line. -/
theorem error_response_undelimited_on_kept_connection :
    ((newEngine (newRadixRouter : RadixRouter Nat)).run (fun _ _ _ => .ok [])
        [.accept 5 true true, .readable 5 (.data (lit "GET /x HTTP/1.1\r\nHost: x\r\n\r\n"))]).map
      (fun e => (e.sent, (e.connections.get 5).map Connection.state)) =
      .ok ([(5, errorResponse 404 (lit "Not Found"))], some .reading) ∧
    (∀ rest, delimit (errorResponse 404 (lit "Not Found") ++ rest) = none) ∧
    (readHead ((⟨Context.FDContext.empty, []⟩ : Context.Exchange).data 200
        (lit "text/plain\r\nContent-Length: 0") (lit "x")).sent false [] []).map (contentLengths ·.1) =
      some [lit "0", lit "1"] :=
  ⟨by decide, delimit_errorResponse 404 (by decide), by decide⟩

end FastServer.Pipelining
