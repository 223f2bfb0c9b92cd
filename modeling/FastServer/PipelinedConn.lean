import FastServer.Parser

namespace FastServer.PipelinedConn

open Request Response Parser

/-- An `error` value of these functions: `io.EOF`, another read error, `ErrInvalidRequest`, or
the error of a failed `conn.Write`. -/
inductive Err
  | eof
  | read
  | invalidRequest
  | write
  deriving DecidableEq, Repr

/-- The peer's side of a connection: the bytes each `conn.Read` finds waiting, the error every
read returns once they are consumed, and whether the peer is gone, so that `conn.Write` fails. -/
structure Peer where
  chunks : List Bytes
  final : Err
  broken : Bool
  deriving DecidableEq, Repr

/-- `conn.Read(p)` with `len(p) = n`: the waiting bytes that fit in `p`; the rest waits for the
next read. -/
def Peer.read (c : Peer) (n : Nat) : (Bytes × Option Err) × Peer :=
  match c.chunks with
  | [] => (([], some c.final), c)
  | d :: ds => ((d.take n, none), { c with chunks := if d.length ≤ n then ds else d.drop n :: ds })

/-- The size `NewPipelineHandler` gives its reader, `bufio.NewReaderSize(conn, 8192)`. -/
def readerSize : Nat := 8192

/-- A `bufio.Reader`: the unread part `buf[r:w]` of its buffer, the error its last fill of the
buffer returned (`b.err`), and the connection it reads. -/
structure Reader where
  buffered : Bytes
  err : Option Err
  peer : Peer
  deriving DecidableEq, Repr

/-- `(*bufio.Reader).Read(p)` for `0 < len(p) < 8192`: an empty buffer is first filled by one
read of the connection, or else the error of the last fill is returned and cleared
(`readErr`); then as much of the buffer as fits in `p` is copied out. -/
def Reader.read (rd : Reader) (n : Nat) : (Bytes × Option Err) × Reader :=
  match rd.buffered, rd.err with
  | [], some e => (([], some e), { rd with err := none })
  | [], none =>
      match rd.peer.read readerSize with
      | (([], e), peer) => (([], e), { rd with peer := peer })
      | ((d, e), peer) => ((d.take n, none), ⟨d.drop n, e, peer⟩)
  | b, _ => ((b.take n, none), { rd with buffered := b.drop n })

/-- A string that `unsafeString` made from part of a buffer: it shows the `len` bytes from
`off` on of whatever the buffer holds when it is read. -/
structure View where
  off : Nat
  len : Nat
  deriving DecidableEq, Repr

def View.read (v : View) (buf : Bytes) : Bytes := (buf.drop v.off).take v.len

/-- Where `ParseRequest` points `Method`, `Path` and `Proto`: they share the bytes of the data
it parses. -/
structure LineViews where
  method : View
  path : View
  proto : View
  deriving DecidableEq, Repr

/-- The views of the fields `requestLineFields line` splits off, by the same searches: `Path`
is `line[sp1+1:sp2]`, cut at its `?` by `parseQuery`. -/
def lineFieldViews (line : Bytes) : Option LineViews :=
  match indexByte line space with
  | none => none
  | some sp1 =>
      match indexByte (line.drop (sp1 + 1)) space with
      | none => none
      | some sp2 =>
          let sp2 := sp2 + sp1 + 1
          let path := (line.take sp2).drop (sp1 + 1)
          some ⟨⟨0, sp1⟩, ⟨sp1 + 1, (indexByte path questionMark).getD path.length⟩,
            ⟨sp2 + 1, line.length - (sp2 + 1)⟩⟩

/-- The views of the request line fields of `ParseRequest(data)`. -/
def lineViews (data : Bytes) : Option LineViews :=
  match indexByte data lf with
  | none => none
  | some lineEnd =>
      let line := data.take lineEnd
      lineFieldViews (if line.getLast? = some cr then line.dropLast else line)

/-- A parsed request as it reads when its line fields are views into `buf`. -/
def rebase (buf : Bytes) (lv : Option LineViews) (req : Request) : Request :=
  match lv with
  | none => req
  | some lv => { req with method := lv.method.read buf, path := lv.path.read buf, proto := lv.proto.read buf }

section Views

variable {d t : Bytes} {k : Nat} {lv : LineViews} {req : Request}

/-- The request line fields, the part of a request that views can hold. -/
def line (req : Request) : Bytes × Bytes × Bytes := (req.method, req.path, req.proto)

def LineViews.read (lv : LineViews) (buf : Bytes) : Bytes × Bytes × Bytes :=
  (lv.method.read buf, lv.path.read buf, lv.proto.read buf)

/-- The three views end within the first `n` bytes. -/
structure LineViews.Within (lv : LineViews) (n : Nat) : Prop where
  method : lv.method.off + lv.method.len ≤ n
  path : lv.path.off + lv.path.len ≤ n
  proto : lv.proto.off + lv.proto.len ≤ n

theorem View.read_take {v : View} (h : v.off + v.len ≤ k) (d : Bytes) : v.read (d.take k) = v.read d := by
  rw [View.read, View.read, List.drop_take, List.take_take, min_eq_left (by omega)]

theorem LineViews.Within.mono (hw : lv.Within k) {n : Nat} (hk : k ≤ n) : lv.Within n :=
  ⟨hw.method.trans hk, hw.path.trans hk, hw.proto.trans hk⟩

theorem LineViews.Within.read_take (hw : lv.Within k) (d : Bytes) : lv.read (d.take k) = lv.read d := by
  simp only [LineViews.read, View.read_take hw.method, View.read_take hw.path, View.read_take hw.proto]

theorem LineViews.Within.read_append (hw : lv.Within d.length) (t : Bytes) : lv.read (d ++ t) = lv.read d := by
  rw [← hw.read_take, List.take_left]

theorem rebase_eq_self {buf : Bytes} (h : lv.read buf = line req) : rebase buf (some lv) req = req := by
  simp only [LineViews.read, line, Prod.mk.injEq] at h
  simp [rebase, h]

theorem line_ite {c : Prop} [Decidable c] {a b r : Request} (ha : line a = line r) (hb : line b = line r) :
    line (if c then a else b) = line r := by
  split <;> assumption

@[simp] theorem line_setHeader (r : Request) (key value : Bytes) : line (r.setHeader key value) = line r := by
  unfold Request.setHeader
  repeat' apply line_ite
  all_goals rfl

theorem line_parseHeaderLine (r : Request) (l : Bytes) : line (parseHeaderLine r l) = line r := by
  unfold parseHeaderLine
  split
  · split_ifs <;> simp
  · rfl

theorem line_parseHeadersLoop (fuel : Nat) (r : Request) (data : Bytes) :
    line (parseHeadersLoop fuel r data) = line r := by
  induction fuel generalizing r data with
  | zero => rfl
  | succ fuel ih =>
      simp only [parseHeadersLoop]
      split_ifs <;> simp only [ih, line_parseHeaderLine]

theorem line_parseBlock {r r' : Request} (h : parseBlock r d = .ok r') : line r' = line r := by
  unfold parseBlock at h
  split at h
  · cases h
    exact line_parseHeadersLoop _ _ _
  · split at h <;> cases h
    rfl

theorem line_foldl_setQueryPair (pairs : List Bytes) (r : Request) :
    line (pairs.foldl setQueryPair r) = line r := by
  induction pairs generalizing r with
  | nil => rfl
  | cons p ps ih =>
      rw [List.foldl_cons, ih]
      unfold setQueryPair
      split <;> rfl

theorem line_splitQuery (r : Request) :
    line (splitQuery r) = (r.method, r.path.take ((indexByte r.path questionMark).getD r.path.length), r.proto) := by
  unfold splitQuery
  split
  · rename_i idx _
    have := line_foldl_setQueryPair (((r.path.drop (idx + 1)).splitOn ampersand)) r
    simp only [line, parseQuery, Prod.mk.injEq] at this ⊢
    simp_all
  · simp_all [line]

theorem indexByte_lt {s : Bytes} {c : UInt8} {i : Nat} (h : indexByte s c = some i) : i < s.length := by
  induction s generalizing i with
  | nil => cases h
  | cons a s ih =>
      unfold indexByte at h
      split_ifs at h
      · cases h; simp
      · obtain ⟨j, hj, rfl⟩ := Option.map_eq_some'.mp h
        simpa using ih hj

theorem lineFieldViews_spec {l : Bytes} (h : requestLineFields l = some req) :
    ∃ lv, lineFieldViews l = some lv ∧ lv.Within l.length ∧ lv.read l = line req := by
  unfold requestLineFields at h
  unfold lineFieldViews
  split at h
  · cases h
  · rename_i sp1 h1
    split at h
    · cases h
    · rename_i sp2 h2
      cases h
      have hsp2 := indexByte_lt h2
      simp only [List.length_drop] at hsp2
      have hpath : (l.take (sp2 + sp1 + 1)).drop (sp1 + 1) = (l.drop (sp1 + 1)).take sp2 := by
        rw [List.drop_take]
        congr 1
        omega
      have hlen : ((l.drop (sp1 + 1)).take sp2).length = sp2 := by simp; omega
      simp only [h1, h2, hpath, line_splitQuery]
      generalize hP : (indexByte ((l.drop (sp1 + 1)).take sp2) questionMark).getD
        ((l.drop (sp1 + 1)).take sp2).length = P
      have hPle : P ≤ sp2 := by
        subst hP
        cases hi : indexByte ((l.drop (sp1 + 1)).take sp2) questionMark with
        | none => simp [hlen]
        | some i => simpa [hlen] using (indexByte_lt hi).le
      refine ⟨_, rfl, ⟨by simp; omega, by simp; omega, by simp; omega⟩, ?_⟩
      simp only [LineViews.read, View.read, List.drop_zero, List.take_take, min_eq_left hPle, Prod.mk.injEq,
        true_and]
      exact List.take_of_length_le (by simp)

theorem lineViews_spec (h : parseRequest d = .ok req) :
    ∃ lv, lineViews d = some lv ∧ lv.Within d.length ∧ lv.read d = line req := by
  unfold parseRequest at h
  unfold lineViews
  split at h
  · cases h
  · rename_i lineEnd hl
    have hlt := indexByte_lt hl
    simp only [hl]
    dsimp only at h ⊢
    rw [if_neg (by rintro rfl; simp at h)] at h
    split at h
    · cases h
    · rename_i req₀ hreq
      have hline : ∃ k ≤ d.length, (if (d.take lineEnd).getLast? = some cr then (d.take lineEnd).dropLast
          else d.take lineEnd) = d.take k := by
        split
        · exact ⟨lineEnd - 1, by omega, by rw [List.dropLast_take hlt]⟩
        · exact ⟨lineEnd, hlt.le, rfl⟩
      obtain ⟨k, hk, hkl⟩ := hline
      rw [hkl] at hreq ⊢
      obtain ⟨lv, hlv, hw, hr⟩ := lineFieldViews_spec hreq
      have hw' : lv.Within k := hw.mono (by simp only [List.length_take]; omega)
      refine ⟨lv, hlv, hw'.mono hk, ?_⟩
      rw [← hw'.read_take, hr, line_parseBlock h]

theorem rebase_parseRequest (h : parseRequest d = .ok req) (t : Bytes) :
    rebase (d ++ t) (lineViews d) req = req := by
  obtain ⟨lv, hlv, hw, hr⟩ := lineViews_spec h
  rw [hlv, rebase_eq_self]
  rw [hw.read_append, hr]

end Views

/-- `make([]byte, 4096)`: the buffer every `Read` of one `ReadRequests` call fills. -/
def pieceSize : Nat := 4096

structure PipelineHandler where
  reader : Reader
  maxSize : Int
  deriving DecidableEq, Repr

/-- `NewPipelineHandler(conn, maxSize)`: a `maxSize` of `0` means 16. -/
def newPipelineHandler (conn : Peer) (maxSize : Int) : PipelineHandler :=
  ⟨⟨[], none, conn⟩, if maxSize = 0 then 16 else maxSize⟩

/-- The loop of `ReadRequests`, `fuel` its iterations left: the reader, the buffer as the reads
so far left it, and the requests parsed so far with the views of their line fields. It ends
with the requests and the error returned, or with the panic of `ParseRequest`. -/
def readLoop : Nat → Reader → Bytes → List (Request × Option LineViews) →
    Except String ((List (Request × Option LineViews) × Option Err) × Reader × Bytes)
  | 0, rd, buf, reqs => .ok ((reqs, none), rd, buf)
  | fuel + 1, rd, buf, reqs =>
      match rd.read pieceSize with
      | ((_, some e), rd) =>
          if e = .eof ∧ reqs ≠ [] then .ok ((reqs, none), rd, buf) else .ok ((reqs, some e), rd, buf)
      | ((d, none), rd) =>
          if d = [] then .ok ((reqs, none), rd, buf)
          else
            let buf := d ++ buf.drop d.length
            match parseRequest d with
            | .error .invalidRequest => .ok ((reqs, some .invalidRequest), rd, buf)
            | .error (.panic msg) => .error msg
            | .ok req =>
                if rd.buffered = [] then .ok ((reqs ++ [(req, lineViews d)], none), rd, buf)
                else readLoop fuel rd buf (reqs ++ [(req, lineViews d)])

/-- `ReadRequests`: `make([]*Request, 0, ph.maxSize)` panics for a negative `maxSize`; the
requests come back with their line fields reading the buffer as the last read left it. -/
def PipelineHandler.readRequests (ph : PipelineHandler) :
    Except String ((List Request × Option Err) × PipelineHandler) :=
  if ph.maxSize < 0 then .error "makeslice: cap out of range"
  else
    match readLoop ph.maxSize.toNat ph.reader (List.replicate pieceSize 0) [] with
    | .error msg => .error msg
    | .ok ((reqs, err), rd, buf) => .ok ((reqs.map fun q => rebase buf q.2 q.1, err), { ph with reader := rd })

/-- `WriteResponses`: the responses joined into one `conn.Write`; the bytes written, or the
write's error. -/
def PipelineHandler.writeResponses (ph : PipelineHandler) (responses : List Bytes) : Except Err Bytes :=
  if ph.reader.peer.broken then .error .write else .ok responses.flatten

structure PipelineConfig where
  enabled : Bool
  maxPipeline : Int
  maxBatch : Int
  keepAlive : Bool
  idleTimeout : Int
  deriving DecidableEq, Repr

def defaultPipelineConfig : PipelineConfig := ⟨true, 16, 16, true, 60⟩

/-- The loop of `HandlePipelinedConnection`, `fuel` bounding its rounds: the bytes written so
far, one write per batch, and how the call ends, with a panic or the error it returns. -/
def serveLoop (config : PipelineConfig) (handler : Request → Bytes) :
    Nat → PipelineHandler → List Bytes → List Bytes × Except String (Option Err)
  | 0, _, writes => (writes, .error "out of fuel")
  | fuel + 1, ph, writes =>
      match ph.readRequests with
      | .error msg => (writes, .error msg)
      | .ok ((_, some e), _) => (writes, .ok (if e = .eof then none else some e))
      | .ok ((requests, none), ph) =>
          if requests = [] then (writes, .ok none)
          else
            match ph.writeResponses (requests.map handler) with
            | .error e => (writes, .ok (some e))
            | .ok out =>
                if !config.keepAlive then (writes ++ [out], .ok none)
                else if (requests.map Request.reset).getLast?.map Request.connection = some (lit "close") then
                  (writes ++ [out], .ok none)
                else serveLoop config handler fuel ph (writes ++ [out])

/-- `ReleaseRequest` has `Reset` every request of a batch before the last one's `Connection` is
compared with close, so the loop never returns there. -/
theorem released_connection_ne_close (rs : List Request) :
    (rs.map Request.reset).getLast?.map Request.connection ≠ some (lit "close") := by
  rw [List.getLast?_map, Option.map_map]
  cases rs.getLast? with
  | none => simp
  | some r => exact fun h => absurd (Option.some.inj h) (show ¬([] : Bytes) = lit "close" by decide)

theorem serveLoop_batch {config : PipelineConfig} {handler : Request → Bytes} {ph ph' : PipelineHandler}
    {requests : List Request} {out : Bytes} (fuel : Nat) (writes : List Bytes)
    (h : ph.readRequests = .ok ((requests, none), ph')) (hne : requests ≠ [])
    (hw : ph'.writeResponses (requests.map handler) = .ok out) :
    serveLoop config handler (fuel + 1) ph writes =
      if config.keepAlive then serveLoop config handler fuel ph' (writes ++ [out])
      else (writes ++ [out], .ok none) := by
  rw [serveLoop, h]
  simp only [if_neg hne, hw]
  cases config.keepAlive
  · rfl
  · simp only [Bool.not_true, Bool.false_eq_true, if_false, if_true, if_neg (released_connection_ne_close requests)]

/-- The bytes the peer has yet to send, and one more for each read that finds some waiting. -/
def Peer.size (c : Peer) : Nat := c.chunks.foldr (fun d n => d.length + 1 + n) 0

/-- Every round but the last consumes some of `Peer.size`, so this many rounds are enough (see
`handlePipelinedConnection_ends`). -/
def Peer.rounds (c : Peer) : Nat := c.size + 1

/-- `HandlePipelinedConnection(conn, config, handler)`: what is written on the connection, and
how the call ends. -/
def handlePipelinedConnection (conn : Peer) (config : PipelineConfig) (handler : Request → Bytes) :
    List Bytes × Except String (Option Err) :=
  serveLoop config handler conn.rounds (newPipelineHandler conn config.maxPipeline) []

/-- What a connection whose every read finds at most 4096 bytes is served: each read is a batch
of one request, answered by one write, and the views of its line fields read its own bytes. -/
def serveReads (config : PipelineConfig) (handler : Request → Bytes) (broken : Bool) (final : Err) :
    List Bytes → List Bytes × Except String (Option Err)
  | [] => ([], .ok (if final = .eof then none else some final))
  | d :: ds =>
      if d = [] then ([], .ok none)
      else
        match parseRequest d with
        | .error .invalidRequest => ([], .ok (some .invalidRequest))
        | .error (.panic msg) => ([], .error msg)
        | .ok req =>
            if broken then ([], .ok (some .write))
            else if !config.keepAlive then ([handler req], .ok none)
            else
              let rest := serveReads config handler broken final ds
              (handler req :: rest.1, rest.2)

section Small

variable {config : PipelineConfig} {handler : Request → Bytes} {d : Bytes} {ds : List Bytes} {final : Err}
  {broken : Bool} {m : Int}

theorem Reader.read_small (hd : d.length ≤ pieceSize) :
    (⟨[], none, ⟨d :: ds, final, broken⟩⟩ : Reader).read pieceSize = ((d, none), ⟨[], none, ⟨ds, final, broken⟩⟩) := by
  have h8 : d.length ≤ readerSize := hd.trans (by decide)
  cases d with
  | nil => rfl
  | cons b d =>
      simp only [Reader.read, Peer.read, if_pos h8, List.take_of_length_le h8, List.take_of_length_le hd,
        List.drop_of_length_le hd]

theorem readRequests_small (hm : 0 < m) (hd : d.length ≤ pieceSize) :
    (⟨⟨[], none, ⟨d :: ds, final, broken⟩⟩, m⟩ : PipelineHandler).readRequests =
      if d = [] then .ok (([], none), ⟨⟨[], none, ⟨ds, final, broken⟩⟩, m⟩)
      else
        match parseRequest d with
        | .error .invalidRequest => .ok (([], some .invalidRequest), ⟨⟨[], none, ⟨ds, final, broken⟩⟩, m⟩)
        | .error (.panic msg) => .error msg
        | .ok req => .ok (([req], none), ⟨⟨[], none, ⟨ds, final, broken⟩⟩, m⟩) := by
  obtain ⟨k, hk⟩ : ∃ k, m.toNat = k + 1 := ⟨m.toNat - 1, by omega⟩
  simp only [PipelineHandler.readRequests, if_neg (show ¬m < 0 by omega), hk, readLoop, Reader.read_small hd]
  split_ifs with hd0
  · rfl
  · cases hp : parseRequest d with
    | error e => cases e <;> rfl
    | ok req => simp [rebase_parseRequest hp]

theorem readRequests_end (hm : 0 < m) :
    (⟨⟨[], none, ⟨[], final, broken⟩⟩, m⟩ : PipelineHandler).readRequests =
      .ok (([], some final), ⟨⟨[], none, ⟨[], final, broken⟩⟩, m⟩) := by
  obtain ⟨k, hk⟩ : ∃ k, m.toNat = k + 1 := ⟨m.toNat - 1, by omega⟩
  simp [PipelineHandler.readRequests, show ¬m < 0 by omega, hk, readLoop, Reader.read, Peer.read]

theorem serveLoop_small (hm : 0 < m) (chunks : List Bytes) (hsmall : ∀ d ∈ chunks, d.length ≤ pieceSize)
    (fuel : Nat) (hfuel : chunks.length < fuel) (writes : List Bytes) :
    serveLoop config handler fuel ⟨⟨[], none, ⟨chunks, final, broken⟩⟩, m⟩ writes =
      (writes ++ (serveReads config handler broken final chunks).1,
        (serveReads config handler broken final chunks).2) := by
  obtain ⟨fuel, rfl⟩ : ∃ f, fuel = f + 1 := ⟨fuel - 1, by omega⟩
  induction chunks generalizing fuel writes with
  | nil => simp [serveLoop, readRequests_end hm, serveReads]
  | cons d ds ih =>
      have hd := hsmall d (List.mem_cons_self d ds)
      by_cases hd0 : d = []
      · subst hd0
        simp [serveLoop, readRequests_small hm hd, serveReads]
      cases hp : parseRequest d with
      | error e => cases e <;> simp [serveLoop, readRequests_small hm hd, serveReads, hd0, hp]
      | ok req =>
          cases broken
          · obtain ⟨f, rfl⟩ : ∃ f, fuel = f + 1 := ⟨fuel - 1, by simp at hfuel; omega⟩
            have ih' := ih (fun d hd => hsmall d (List.mem_cons_of_mem _ hd)) (writes ++ [handler req]) f
              (by simpa using hfuel)
            have hreq : (⟨⟨[], none, ⟨d :: ds, final, false⟩⟩, m⟩ : PipelineHandler).readRequests =
                .ok (([req], none), ⟨⟨[], none, ⟨ds, final, false⟩⟩, m⟩) := by
              rw [readRequests_small hm hd, if_neg hd0, hp]
            rw [serveLoop_batch (f + 1) writes hreq (List.cons_ne_nil _ _) rfl]
            cases hka : config.keepAlive
            · simp [serveReads, hd0, hp, hka]
            · simp [serveReads, hd0, hp, hka, ih']
          · simp [serveLoop, readRequests_small hm hd, serveReads, hd0, hp, PipelineHandler.writeResponses]

theorem length_lt_rounds (c : Peer) : c.chunks.length < c.rounds := by
  obtain ⟨chunks, final, broken⟩ := c
  simp only [Peer.rounds, Peer.size, Nat.lt_succ_iff]
  induction chunks with
  | nil => simp
  | cons d ds ih => simp only [List.length_cons, List.foldr_cons]; omega

theorem maxSize_pos (hm : 0 ≤ m) : 0 < if m = 0 then 16 else m := by
  split_ifs <;> omega

/-- On a connection whose every read finds at most 4096 bytes, `HandlePipelinedConnection`
serves each read as a batch of its one request, in order, and ends as `serveReads` does: the
buffered reader, the batches and the views into the shared buffer make no difference there. -/
theorem handlePipelinedConnection_small_reads (chunks : List Bytes) (final : Err) (broken : Bool)
    (config : PipelineConfig) (handler : Request → Bytes) (hm : 0 ≤ config.maxPipeline)
    (hsmall : ∀ d ∈ chunks, d.length ≤ pieceSize) :
    handlePipelinedConnection ⟨chunks, final, broken⟩ config handler =
      serveReads config handler broken final chunks := by
  rw [handlePipelinedConnection, newPipelineHandler,
    serveLoop_small (maxSize_pos hm) chunks hsmall _ (length_lt_rounds ⟨chunks, final, broken⟩)]
  simp

/-- Two requests, each in a read of its own. -/
theorem handlePipelinedConnection_small_reads_two :
    0 ≤ defaultPipelineConfig.maxPipeline ∧
      (∀ d ∈ [lit "GET /a HTTP/1.1\r\nHost: x\r\n\r\n", lit "POST /b HTTP/1.1\r\nHost: x\r\n\r\nhi"],
        d.length ≤ pieceSize) ∧
      handlePipelinedConnection ⟨[lit "GET /a HTTP/1.1\r\nHost: x\r\n\r\n",
          lit "POST /b HTTP/1.1\r\nHost: x\r\n\r\nhi"], .eof, false⟩ defaultPipelineConfig Request.body =
        serveReads defaultPipelineConfig Request.body false .eof
          [lit "GET /a HTTP/1.1\r\nHost: x\r\n\r\n", lit "POST /b HTTP/1.1\r\nHost: x\r\n\r\nhi"] :=
  ⟨by decide, by decide, handlePipelinedConnection_small_reads _ _ _ _ _ (by decide) (by decide)⟩

end Small

section Big

variable {config : PipelineConfig} {handler : Request → Bytes} {d b : Bytes} {ds : List Bytes} {final : Err}
  {broken : Bool} {q₁ : Request}

end Big

section Ends

variable {config : PipelineConfig} {handler : Request → Bytes}

def Reader.size (rd : Reader) : Nat := rd.buffered.length + rd.peer.size

theorem Peer.read_size {c c' : Peer} {n : Nat} {d : Bytes} {e : Option Err} (h : c.read n = ((d, e), c')) :
    c'.size + d.length ≤ c.size := by
  obtain ⟨chunks, final, broken⟩ := c
  cases chunks with
  | nil => cases h; simp [Peer.size]
  | cons x xs =>
      simp only [Peer.read, Prod.mk.injEq] at h
      obtain ⟨⟨rfl, -⟩, rfl⟩ := h
      split_ifs with hx
      · simp [Peer.size, List.length_take, hx]; omega
      · simp [Peer.size, List.length_take]; omega

theorem Reader.read_size {rd rd' : Reader} {n : Nat} {d : Bytes} {e : Option Err} (h : rd.read n = ((d, e), rd')) :
    rd'.size + d.length ≤ rd.size := by
  obtain ⟨buffered, err, peer⟩ := rd
  unfold Reader.read at h
  split at h
  · cases h; simp [Reader.size]
  · split at h
    · rename_i peer' hp
      cases h
      simpa [Reader.size] using Peer.read_size hp
    · rename_i d' e' peer' _ hp
      cases h
      have := Peer.read_size hp
      simp only [Reader.size, List.length_drop, List.length_take] at this ⊢
      omega
  · cases h
    simp only [Reader.size, List.length_drop, List.length_take]
    omega

theorem readLoop_size {fuel : Nat} {rd rd' : Reader} {buf buf' : Bytes} {reqs reqs' : List (Request × Option LineViews)}
    {err : Option Err} (h : readLoop fuel rd buf reqs = .ok ((reqs', err), rd', buf')) :
    rd'.size + reqs'.length ≤ rd.size + reqs.length := by
  induction fuel generalizing rd buf reqs with
  | zero => cases h; rfl
  | succ fuel ih =>
      unfold readLoop at h
      split at h
      · rename_i d e rd₁ hr
        have := Reader.read_size hr
        split_ifs at h <;> cases h <;> omega
      · rename_i d rd₁ hr
        have := Reader.read_size hr
        by_cases hd : d = []
        · rw [if_pos hd] at h
          cases h
          omega
        rw [if_neg hd] at h
        have hd' : 0 < d.length := List.length_pos.mpr hd
        dsimp only at h
        split at h
        · cases h; omega
        · cases h
        · split_ifs at h
          · cases h; simp; omega
          · have := ih h; simp at this; omega

theorem readRequests_size {ph ph' : PipelineHandler} {reqs : List Request} {err : Option Err}
    (h : ph.readRequests = .ok ((reqs, err), ph')) : ph'.reader.size + reqs.length ≤ ph.reader.size := by
  unfold PipelineHandler.readRequests at h
  split_ifs at h
  split at h
  · cases h
  · rename_i reqs₀ err₀ rd buf hl
    cases h
    simpa using readLoop_size hl

theorem serveLoop_succ (fuel : Nat) (ph : PipelineHandler) (writes : List Bytes) (hfuel : ph.reader.size < fuel) :
    serveLoop config handler (fuel + 1) ph writes = serveLoop config handler fuel ph writes := by
  induction fuel generalizing ph writes with
  | zero => omega
  | succ fuel ih =>
      rw [serveLoop, serveLoop]
      split
      · rfl
      · rfl
      · rename_i requests ph' hreq
        have hsize := readRequests_size hreq
        by_cases hne : requests = []
        · simp only [if_pos hne]
        have : 0 < requests.length := List.length_pos.mpr hne
        simp only [if_neg hne]
        split
        · rfl
        · split_ifs
          · rfl
          · rfl
          · exact ih _ _ (by omega)

/-- `HandlePipelinedConnection` returns on every connection: its loop ends within `conn.rounds`
rounds, as each round that goes on consumes a byte the peer sent, and any more rounds give the
same result. -/
theorem handlePipelinedConnection_ends (conn : Peer) (config : PipelineConfig) (handler : Request → Bytes)
    (fuel : Nat) (hfuel : conn.rounds ≤ fuel) :
    serveLoop config handler fuel (newPipelineHandler conn config.maxPipeline) [] =
      handlePipelinedConnection conn config handler := by
  obtain ⟨k, rfl⟩ := Nat.exists_eq_add_of_le hfuel
  induction k with
  | zero => rfl
  | succ k ih =>
      rw [← Nat.add_assoc, serveLoop_succ _ _ _ (by simp [newPipelineHandler, Reader.size, Peer.rounds]; omega),
        ih (by omega)]

/-- One request in one read: thirty rounds are as good as the three the bound gives. -/
theorem handlePipelinedConnection_ends_get :
    (⟨[lit "GET / HTTP/1.1\r\nHost: x\r\n\r\n"], .eof, false⟩ : Peer).rounds ≤ 30 ∧
      serveLoop defaultPipelineConfig Request.path 30
          (newPipelineHandler ⟨[lit "GET / HTTP/1.1\r\nHost: x\r\n\r\n"], .eof, false⟩ 16) [] =
        handlePipelinedConnection ⟨[lit "GET / HTTP/1.1\r\nHost: x\r\n\r\n"], .eof, false⟩ defaultPipelineConfig
          Request.path :=
  ⟨by decide, handlePipelinedConnection_ends _ defaultPipelineConfig _ 30 (by decide)⟩

end Ends

end FastServer.PipelinedConn
