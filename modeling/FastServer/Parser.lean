import FastServer.Request
import FastServer.Response

namespace FastServer.Parser

open Request Response

def questionMark : UInt8 := 63
def ampersand : UInt8 := 38
def equalsSign : UInt8 := 61

/-- `"\r\n\r\n"`, the end of a header block. -/
def crlfcrlf : Bytes := [cr, lf, cr, lf]

/-- `"\n\n"`, the end `ParseRequest` looks for when there is no `"\r\n\r\n"`. -/
def lflf : Bytes := [lf, lf]

/-- `bytes.IndexByte(s, c)`; `none` is `-1`. -/
def indexByte : Bytes → UInt8 → Option Nat
  | [], _ => none
  | a :: s, c => if a = c then some 0 else (indexByte s c).map (· + 1)

/-- `bytes.Index(s, sep)`: the first position where `sep` starts; `none` is `-1`. -/
def index (s sep : Bytes) : Option Nat :=
  if hasPrefix s sep then some 0
  else
    match s with
    | [] => none
    | _ :: t => (index t sep).map (· + 1)

/-- The runes `unicode.IsSpace` accepts, in UTF-8: `'\t'`, `'\n'`, `'\v'`, `'\f'`, `'\r'`, `' '`,
U+0085, U+00A0, U+1680, U+2000 to U+200A, U+2028, U+2029, U+202F, U+205F and U+3000. A rune that
`utf8.DecodeRune` reads at the front of some bytes, or `utf8.DecodeLastRune` at their end, is one
of these exactly when the bytes start, or end, with its encoding. -/
def spaceRunes : List Bytes :=
  [[9], [10], [11], [12], [13], [32], [0xC2, 0x85], [0xC2, 0xA0], [0xE1, 0x9A, 0x80],
    [0xE2, 0x80, 0x80], [0xE2, 0x80, 0x81], [0xE2, 0x80, 0x82], [0xE2, 0x80, 0x83], [0xE2, 0x80, 0x84],
    [0xE2, 0x80, 0x85], [0xE2, 0x80, 0x86], [0xE2, 0x80, 0x87], [0xE2, 0x80, 0x88], [0xE2, 0x80, 0x89],
    [0xE2, 0x80, 0x8A], [0xE2, 0x80, 0xA8], [0xE2, 0x80, 0xA9], [0xE2, 0x80, 0xAF], [0xE2, 0x81, 0x9F],
    [0xE3, 0x80, 0x80]]

/-- The loop of `TrimLeftFunc`: leading runes that are among `runes` dropped one at a time.
Each round drops a byte at least, so `s.length` rounds are enough. -/
def dropRunes (runes : List Bytes) : Nat → Bytes → Bytes
  | 0, s => s
  | fuel + 1, s =>
      match runes.find? (hasPrefix s ·) with
      | some r => dropRunes runes fuel (s.drop r.length)
      | none => s

/-- `bytes.TrimSpace`: its ASCII fast path and its fall-back `TrimFunc(s, unicode.IsSpace)` both
drop the leading and then the trailing white-space runes. -/
def trimSpace (s : Bytes) : Bytes :=
  (dropRunes (spaceRunes.map List.reverse) s.length (dropRunes spaceRunes s.length s).reverse).reverse

/-- One pair of `parseQuery`: `bytes.SplitN(pair, "=", 2)`, a pair without `=` mapping to `""`. -/
def setQueryPair (req : Request) (pair : Bytes) : Request :=
  match indexByte pair equalsSign with
  | some i => { req with query := req.query.set (pair.take i) (pair.drop (i + 1)) }
  | none => { req with query := req.query.set pair [] }

/-- `parseQuery(req, path, idx)`: the path before the `?`, and the request with every pair of
`bytes.Split(queryStr, "&")` stored in its query map. -/
def parseQuery (req : Request) (path : Bytes) (idx : Nat) : Bytes × Request :=
  (path.take idx, ((path.drop (idx + 1)).splitOn ampersand).foldl setQueryPair req)

/-- One line of `parseHeaders`: a line with a colon past its first byte is a header, its key
and value trimmed and stored by `SetHeader`. -/
def parseHeaderLine (req : Request) (line : Bytes) : Request :=
  match indexByte line colon with
  | some c => if 0 < c then req.setHeader (trimSpace (line.take c)) (trimSpace (line.drop (c + 1))) else req
  | none => req

/-- The loop of `parseHeaders`: lines up to `'\n'`, a trailing `'\r'` dropped, until an empty
line or the end of the data. A round that goes on consumes at least one byte, so `fuel` of
`data.length` is enough. -/
def parseHeadersLoop : Nat → Request → Bytes → Request
  | 0, req, _ => req
  | fuel + 1, req, data =>
      if data = [] then req
      else
        let lineEnd := (indexByte data lf).getD data.length
        let line := data.take lineEnd
        let line := if line.getLast? = some cr then line.dropLast else line
        if line = [] then req
        else if lineEnd = data.length then parseHeaderLine req line
        else parseHeadersLoop fuel (parseHeaderLine req line) (data.drop (lineEnd + 1))

def parseHeaders (req : Request) (data : Bytes) : Request := parseHeadersLoop data.length req data

/-- Why `ParseRequest` gives no request: it returns `ErrInvalidRequest`, or it panics. -/
inductive ParseError
  | invalidRequest
  | panic (msg : String)
  deriving DecidableEq, Repr

/-- The query step of `ParseRequest`: a path with a `?` is cut there, the rest parsed into
the query map. -/
def splitQuery (req : Request) : Request :=
  match indexByte req.path questionMark with
  | some idx => { (parseQuery req req.path idx).2 with path := (parseQuery req req.path idx).1 }
  | none => req

/-- `METHOD PATH PROTO` of the request line, split at its first two spaces (no `SplitN`), then
the query step; `none` where `ParseRequest` returns `ErrInvalidRequest`. -/
def requestLineFields (line : Bytes) : Option Request :=
  match indexByte line space with
  | none => none
  | some sp1 =>
      match indexByte (line.drop (sp1 + 1)) space with
      | none => none
      | some sp2 =>
          let sp2 := sp2 + sp1 + 1
          some (splitQuery { Request.empty with
            method := line.take sp1, path := (line.take sp2).drop (sp1 + 1),
            proto := line.drop (sp2 + 1) })

/-- The rest of `ParseRequest` after the request line: the header block ends at the first
`"\r\n\r\n"` (its headers parsed) or else at the first `"\n\n"` (no header parsed), and every
byte after it is the body. -/
def parseBlock (req : Request) (data : Bytes) : Except ParseError Request :=
  match index data crlfcrlf with
  | some headerEnd => .ok { parseHeaders req (data.take headerEnd) with body := data.drop (headerEnd + 4) }
  | none =>
      match index data lflf with
      | some headerEnd => .ok { req with body := data.drop (headerEnd + 2) }
      | none => .error .invalidRequest

/-- `ParseRequest(data)`, on a request fresh from the pool (`Reset` clears every field).
`line[len(line)-1]` panics when the data starts with `'\n'`. -/
def parseRequest (data : Bytes) : Except ParseError Request :=
  match indexByte data lf with
  | none => .error .invalidRequest
  | some lineEnd =>
      if lineEnd = 0 then .error (.panic "index out of range [-1]")
      else
        let line := data.take lineEnd
        let line := if line.getLast? = some cr then line.dropLast else line
        match requestLineFields line with
        | none => .error .invalidRequest
        | some req => parseBlock req (data.drop (lineEnd + 1))

example : parseRequest (lit "GET /a?x=1 HTTP/1.1\r\nHost: h\r\nConnection:  close \r\n\r\nhi") =
    .ok { Request.empty with
      method := lit "GET", path := lit "/a", proto := lit "HTTP/1.1",
      host := lit "h", connection := lit "close", query := [(lit "x", lit "1")], body := lit "hi" } := by
  decide

example : parseRequest (lit "\nGET / HTTP/1.1\r\n") = .error (.panic "index out of range [-1]") := by decide

section Search

variable {a t sep : Bytes} {c : UInt8}

theorem indexByte_append_of_not_mem (hc : c ∉ a) (t : Bytes) :
    indexByte (a ++ t) c = (indexByte t c).map (· + a.length) := by
  induction a with
  | nil => simp
  | cons x a ih =>
      have hx : x ≠ c := fun h => hc (h ▸ List.mem_cons_self x a)
      simp [indexByte, hx, ih (fun h => hc (List.mem_cons_of_mem x h)), Option.map_map, Function.comp_def,
        Nat.add_assoc]

theorem indexByte_of_not_mem (hc : c ∉ a) : indexByte a c = none := by
  simpa using indexByte_append_of_not_mem hc []

theorem indexByte_append_cons (hc : c ∉ a) (t : Bytes) : indexByte (a ++ c :: t) c = some a.length := by
  simp [indexByte_append_of_not_mem hc, indexByte]

theorem index_cons_of_hasPrefix_false {x : UInt8} (h : hasPrefix (x :: t) sep = false) :
    index (x :: t) sep = (index t sep).map (· + 1) := by
  rw [index.eq_def, if_neg (by simp [h])]

theorem index_append_of_not_mem {x : UInt8} {rest : Bytes} (hx : x ∉ a) (t : Bytes) :
    index (a ++ t) (x :: rest) = (index t (x :: rest)).map (· + a.length) := by
  induction a with
  | nil => simp
  | cons y a ih =>
      have hy : y ≠ x := fun h => hx (h ▸ List.mem_cons_self y a)
      rw [List.cons_append, index_cons_of_hasPrefix_false (by simp [hasPrefix, hy]),
        ih (fun h => hx (List.mem_cons_of_mem y h))]
      simp [Option.map_map, Function.comp_def, Nat.add_assoc]

theorem index_of_prefix_self {s : Bytes} (h : sep <+: s) : index s sep = some 0 := by
  rw [index.eq_def, if_pos ((hasPrefix_eq_true_iff _ _).mpr h)]

theorem index_self_append (t : Bytes) : index (sep ++ t) sep = some 0 :=
  index_of_prefix_self (List.prefix_append sep t)

theorem index_of_prefix {s : Bytes} (hp : s <+: t) {j : Nat} (h : index s sep = some j) :
    ∃ j', index t sep = some j' ∧ j' ≤ j := by
  induction s generalizing t j with
  | nil =>
      rw [index.eq_def] at h
      split at h
      · cases h
        exact ⟨0, index_of_prefix_self (((hasPrefix_eq_true_iff _ _).mp ‹_›).trans hp), le_rfl⟩
      · cases h
  | cons x s ih =>
      by_cases hs : hasPrefix (x :: s) sep = true
      · rw [index.eq_def, if_pos hs] at h
        cases h
        exact ⟨0, index_of_prefix_self (((hasPrefix_eq_true_iff _ _).mp hs).trans hp), le_rfl⟩
      · rw [index_cons_of_hasPrefix_false (by simpa using hs)] at h
        obtain ⟨j₀, hj₀, rfl⟩ := Option.map_eq_some'.mp h
        obtain ⟨t', rfl⟩ : ∃ t', t = x :: t' := by
          obtain ⟨u, rfl⟩ := hp
          exact ⟨s ++ u, rfl⟩
        obtain ⟨j', hj', hle⟩ := ih (List.cons_prefix_cons.mp hp).2 hj₀
        by_cases ht : hasPrefix (x :: t') sep = true
        · exact ⟨0, by rw [index.eq_def, if_pos ht], Nat.zero_le _⟩
        · exact ⟨j' + 1, by rw [index_cons_of_hasPrefix_false (by simpa using ht), hj']; rfl, by omega⟩

theorem index_add_length_le {s : Bytes} {j : Nat} (h : index s sep = some j) : j + sep.length ≤ s.length := by
  induction s generalizing j with
  | nil =>
      rw [index.eq_def] at h
      split at h
      · cases h
        have := ((hasPrefix_eq_true_iff _ _).mp ‹_›).length_le
        simp only [List.length_nil] at this ⊢
        omega
      · cases h
  | cons x s ih =>
      by_cases hs : hasPrefix (x :: s) sep = true
      · rw [index.eq_def, if_pos hs] at h
        cases h
        exact (Nat.zero_add _).trans_le ((hasPrefix_eq_true_iff _ _).mp hs).length_le
      · rw [index_cons_of_hasPrefix_false (by simpa using hs)] at h
        obtain ⟨j₀, hj₀, rfl⟩ := Option.map_eq_some'.mp h
        have := ih hj₀
        simp only [List.length_cons]
        omega

end Search

/-- `name: value`. -/
def headerLine (h : Bytes × Bytes) : Bytes := h.1 ++ colon :: space :: h.2

/-- The header lines, joined by CRLF. -/
def headerBlock : List (Bytes × Bytes) → Bytes
  | [] => []
  | [h] => headerLine h
  | h :: hs => headerLine h ++ cr :: lf :: headerBlock hs

/-- A request as a client writes it: request line, header lines, blank line, body. -/
structure WireRequest where
  method : Bytes
  target : Bytes
  proto : Bytes
  headers : List (Bytes × Bytes)
  body : Bytes
  deriving DecidableEq, Repr

namespace WireRequest

def requestLine (r : WireRequest) : Bytes := r.method ++ space :: (r.target ++ space :: r.proto)

/-- Everything up to and including the blank line. -/
def head (r : WireRequest) : Bytes := r.requestLine ++ cr :: lf :: (headerBlock r.headers ++ crlfcrlf)

def encode (r : WireRequest) : Bytes := r.head ++ r.body

/-- The request line's fields, the target's query split off as `ParseRequest` does. -/
def lineRequest (r : WireRequest) : Request :=
  splitQuery { Request.empty with method := r.method, path := r.target, proto := r.proto }

/-- The request a server should see: the request line's fields, each header stored by
`SetHeader` in order, and the body. -/
def toRequest (r : WireRequest) : Request :=
  { r.headers.foldl (fun req h => req.setHeader h.1 h.2) r.lineRequest with body := r.body }

end WireRequest

/-- A header the parser reads back as written: a non-empty name without a colon, and a value,
neither with CR, LF or surrounding white space. -/
structure HeaderOk (h : Bytes × Bytes) : Prop where
  name_ne : h.1 ≠ []
  colon_name : colon ∉ h.1
  cr_name : cr ∉ h.1
  lf_name : lf ∉ h.1
  cr_value : cr ∉ h.2
  lf_value : lf ∉ h.2
  trim_name : trimSpace h.1 = h.1
  trim_value : trimSpace h.2 = h.2

/-- A well-formed request: method and target without spaces or LF, a protocol without CR or LF,
and at least one header, each `HeaderOk`. -/
structure WireRequest.WellFormed (r : WireRequest) : Prop where
  space_method : space ∉ r.method
  lf_method : lf ∉ r.method
  space_target : space ∉ r.target
  lf_target : lf ∉ r.target
  cr_proto : cr ∉ r.proto
  lf_proto : lf ∉ r.proto
  headers_ne : r.headers ≠ []
  headers_ok : ∀ h ∈ r.headers, HeaderOk h

instance (h : Bytes × Bytes) : Decidable (HeaderOk h) :=
  decidable_of_iff (h.1 ≠ [] ∧ colon ∉ h.1 ∧ cr ∉ h.1 ∧ lf ∉ h.1 ∧ cr ∉ h.2 ∧ lf ∉ h.2 ∧
      trimSpace h.1 = h.1 ∧ trimSpace h.2 = h.2)
    ⟨fun ⟨a, b, c, d, e, f, g, i⟩ => ⟨a, b, c, d, e, f, g, i⟩, fun ⟨a, b, c, d, e, f, g, i⟩ => ⟨a, b, c, d, e, f, g, i⟩⟩

instance (r : WireRequest) : Decidable r.WellFormed :=
  decidable_of_iff (space ∉ r.method ∧ lf ∉ r.method ∧ space ∉ r.target ∧ lf ∉ r.target ∧ cr ∉ r.proto ∧
      lf ∉ r.proto ∧ r.headers ≠ [] ∧ ∀ h ∈ r.headers, HeaderOk h)
    ⟨fun ⟨a, b, c, d, e, f, g, i⟩ => ⟨a, b, c, d, e, f, g, i⟩, fun ⟨a, b, c, d, e, f, g, i⟩ => ⟨a, b, c, d, e, f, g, i⟩⟩

section Wire

variable {h : Bytes × Bytes} {hs : List (Bytes × Bytes)} {r : WireRequest}

theorem dropRunes_length_le (runes : List Bytes) (n : Nat) (s : Bytes) :
    (dropRunes runes n s).length ≤ s.length := by
  induction n generalizing s with
  | zero => exact le_rfl
  | succ n ih =>
      rw [dropRunes]
      split
      · exact (ih _).trans (by simp)
      · exact le_rfl

theorem dropRunes_succ {runes : List Bytes} (hne : [] ∉ runes) {n : Nat} {s : Bytes} (hs : s.length ≤ n) :
    dropRunes runes (n + 1) s = dropRunes runes n s := by
  induction n generalizing s with
  | zero =>
      obtain rfl := List.eq_nil_of_length_eq_zero (Nat.le_zero.mp hs)
      simp only [dropRunes]
      split <;> simp
  | succ n ih =>
      conv_lhs => rw [dropRunes]
      conv_rhs => rw [dropRunes]
      split
      · rename_i r hr
        have hpos : 0 < r.length := List.length_pos.mpr fun h => hne (h ▸ List.mem_of_find?_eq_some hr)
        exact ih (by simp only [List.length_drop]; omega)
      · rfl

theorem trimSpace_space_cons (v : Bytes) : trimSpace (space :: v) = trimSpace v := by
  have hfind : spaceRunes.find? (hasPrefix (space :: v) ·) = some [space] := by
    simp [spaceRunes, hasPrefix, space]
  have hleft : dropRunes spaceRunes (v.length + 1) (space :: v) = dropRunes spaceRunes v.length v := by
    rw [dropRunes, hfind]
    rfl
  rw [trimSpace, trimSpace, List.length_cons, hleft,
    dropRunes_succ (by decide) ((List.length_reverse _).trans_le (dropRunes_length_le _ _ _))]

namespace HeaderOk

theorem cr_not_mem (hh : HeaderOk h) : cr ∉ headerLine h := by
  simp [headerLine, hh.cr_name, hh.cr_value, show cr ≠ colon by decide, show cr ≠ space by decide]

theorem lf_not_mem (hh : HeaderOk h) : lf ∉ headerLine h := by
  simp [headerLine, hh.lf_name, hh.lf_value, show lf ≠ colon by decide, show lf ≠ space by decide]

theorem getLast?_ne (hh : HeaderOk h) : (headerLine h).getLast? ≠ some cr := fun hl =>
  hh.cr_not_mem (List.mem_of_getLast?_eq_some hl)

theorem parseHeaderLine_eq (hh : HeaderOk h) (req : Request) :
    parseHeaderLine req (headerLine h) = req.setHeader h.1 h.2 := by
  have hc : indexByte (headerLine h) colon = some h.1.length := indexByte_append_cons hh.colon_name _
  have hpos : 0 < h.1.length := List.length_pos.mpr hh.name_ne
  rw [parseHeaderLine, hc]
  simp [hpos, headerLine, trimSpace_space_cons, hh.trim_name, hh.trim_value]

end HeaderOk

theorem parseHeadersLoop_headerBlock (hok : ∀ h ∈ hs, HeaderOk h) (fuel : Nat) (req : Request)
    (hfuel : (headerBlock hs).length ≤ fuel) :
    parseHeadersLoop fuel req (headerBlock hs) = hs.foldl (fun req h => req.setHeader h.1 h.2) req := by
  induction hs generalizing fuel req with
  | nil => cases fuel <;> simp [headerBlock, parseHeadersLoop]
  | cons h hs ih =>
      have hh := hok h (List.mem_cons_self h hs)
      have hne : headerLine h ≠ [] := by simp [headerLine]
      obtain ⟨fuel, rfl⟩ : ∃ f, fuel = f + 1 :=
        Nat.exists_eq_succ_of_ne_zero (by
          cases hs <;> simp [headerBlock, headerLine] at hfuel ⊢ <;> omega)
      cases hs with
      | nil =>
          simp only [headerBlock, parseHeadersLoop, hne, if_false, indexByte_of_not_mem hh.lf_not_mem,
            Option.getD_none, List.take_length, hh.getLast?_ne, if_true, List.foldl_cons, List.foldl_nil,
            hh.parseHeaderLine_eq]
      | cons h' hs =>
          have hL : lf ∉ headerLine h ++ [cr] := by simp [hh.lf_not_mem, show lf ≠ cr by decide]
          have hdata : headerBlock (h :: h' :: hs) = (headerLine h ++ [cr]) ++ lf :: headerBlock (h' :: hs) := by
            simp [headerBlock]
          have hlen : (headerLine h ++ [cr]).length ≠ (headerBlock (h :: h' :: hs)).length := by
            rw [hdata]; simp
          rw [hdata, parseHeadersLoop, if_neg (by simp), indexByte_append_cons hL, ← hdata]
          simp only [Option.getD_some]
          have hdrop : ((headerLine h ++ [cr]) ++ lf :: headerBlock (h' :: hs)).drop
              ((headerLine h ++ [cr]).length + 1) = headerBlock (h' :: hs) := by
            rw [show (headerLine h ++ [cr]) ++ lf :: headerBlock (h' :: hs) =
              (headerLine h ++ [cr] ++ [lf]) ++ headerBlock (h' :: hs) by simp]
            exact List.drop_left' (by simp)
          rw [hdata, List.take_left' rfl, List.getLast?_concat, if_pos rfl, List.dropLast_concat,
            if_neg hne, ← hdata, if_neg hlen, hdata, hdrop, List.foldl_cons, hh.parseHeaderLine_eq]
          exact ih (fun g hg => hok g (List.mem_cons_of_mem h hg)) fuel _ (by
            rw [hdata] at hfuel; simp at hfuel; omega)

theorem hasPrefix_headerBlock_false {x : UInt8} (hh : HeaderOk h) (hx : x ∉ h.1) (t sep : Bytes) :
    hasPrefix (headerBlock (h :: hs) ++ t) (x :: sep) = false := by
  obtain ⟨y, name, hy⟩ := List.exists_cons_of_ne_nil hh.name_ne
  have hyx : y ≠ x := fun e => hx (by rw [hy, e]; exact List.mem_cons_self _ _)
  have hblock : ∃ rest, headerBlock (h :: hs) = headerLine h ++ rest := by
    cases hs with
    | nil => exact ⟨[], (List.append_nil _).symm⟩
    | cons h' hs => exact ⟨_, rfl⟩
  obtain ⟨rest, hrest⟩ := hblock
  simp [hrest, headerLine, hy, hasPrefix, hyx]

theorem index_headerBlock (hok : ∀ h ∈ hs, HeaderOk h) (hne : hs ≠ []) (t : Bytes) :
    index (headerBlock hs ++ crlfcrlf ++ t) crlfcrlf = some (headerBlock hs).length := by
  induction hs with
  | nil => exact absurd rfl hne
  | cons h hs ih =>
      have hh := hok h (List.mem_cons_self h hs)
      cases hs with
      | nil =>
          calc index (headerBlock [h] ++ crlfcrlf ++ t) crlfcrlf
              = (index (crlfcrlf ++ t) crlfcrlf).map (· + (headerLine h).length) := by
                rw [headerBlock, List.append_assoc]
                exact index_append_of_not_mem hh.cr_not_mem _
            _ = some (headerBlock [h]).length := by simp [index_self_append, headerBlock]
      | cons h' hs =>
          have hh' := hok h' (List.mem_cons_of_mem h (List.mem_cons_self h' hs))
          calc index (headerBlock (h :: h' :: hs) ++ crlfcrlf ++ t) crlfcrlf
              = (index (cr :: lf :: (headerBlock (h' :: hs) ++ crlfcrlf ++ t)) crlfcrlf).map
                  (· + (headerLine h).length) := by
                rw [show headerBlock (h :: h' :: hs) ++ crlfcrlf ++ t =
                  headerLine h ++ cr :: lf :: (headerBlock (h' :: hs) ++ crlfcrlf ++ t) by simp [headerBlock]]
                exact index_append_of_not_mem hh.cr_not_mem _
            _ = some (headerBlock (h :: h' :: hs)).length := by
                rw [index_cons_of_hasPrefix_false (by simp [hasPrefix, crlfcrlf,
                    List.append_assoc, hasPrefix_headerBlock_false hh' hh'.cr_name]),
                  index_cons_of_hasPrefix_false (by simp [hasPrefix, crlfcrlf, show lf ≠ cr by decide]),
                  ih (fun g hg => hok g (List.mem_cons_of_mem h hg)) (List.cons_ne_nil _ _)]
                simp [headerBlock]
                omega

theorem index_headerBlock_lflf (hok : ∀ h ∈ hs, HeaderOk h) :
    index (headerBlock hs ++ crlfcrlf) lflf = none := by
  rw [show lflf = [lf, lf] from rfl]
  induction hs with
  | nil => decide
  | cons h hs ih =>
      have hh := hok h (List.mem_cons_self h hs)
      cases hs with
      | nil =>
          rw [headerBlock, index_append_of_not_mem hh.lf_not_mem]
          rfl
      | cons h' hs =>
          have hh' := hok h' (List.mem_cons_of_mem h (List.mem_cons_self h' hs))
          rw [show headerBlock (h :: h' :: hs) ++ crlfcrlf =
            headerLine h ++ cr :: lf :: (headerBlock (h' :: hs) ++ crlfcrlf) by simp [headerBlock],
            index_append_of_not_mem hh.lf_not_mem,
            index_cons_of_hasPrefix_false (by simp [hasPrefix, show cr ≠ lf by decide]),
            index_cons_of_hasPrefix_false (by
              simp [hasPrefix, hasPrefix_headerBlock_false hh' hh'.lf_name]),
            ih (fun g hg => hok g (List.mem_cons_of_mem h hg))]
          rfl

theorem parseBlock_headerBlock (hok : ∀ h ∈ hs, HeaderOk h) (hne : hs ≠ []) (req : Request) (t : Bytes) :
    parseBlock req (headerBlock hs ++ crlfcrlf ++ t) =
      .ok { hs.foldl (fun req h => req.setHeader h.1 h.2) req with body := t } := by
  rw [parseBlock, index_headerBlock hok hne t]
  simp only [List.append_assoc, List.take_left' rfl, parseHeaders, parseHeadersLoop_headerBlock hok _ req le_rfl]
  rw [show (headerBlock hs ++ (crlfcrlf ++ t)).drop ((headerBlock hs).length + 4) = t by
    simp [crlfcrlf]]

theorem parseBlock_of_prefix (hok : ∀ h ∈ hs, HeaderOk h) (hne : hs ≠ []) {d : Bytes}
    (hd : d <+: headerBlock hs ++ crlfcrlf) (hlt : d.length < (headerBlock hs ++ crlfcrlf).length)
    (req : Request) : parseBlock req d = .error .invalidRequest := by
  have h1 : index d crlfcrlf = none := by
    cases hj : index d crlfcrlf with
    | none => rfl
    | some j =>
        obtain ⟨j', hj', hle⟩ := index_of_prefix hd hj
        rw [show headerBlock hs ++ crlfcrlf = headerBlock hs ++ crlfcrlf ++ [] by simp,
          index_headerBlock hok hne] at hj'
        cases hj'
        have := index_add_length_le hj
        simp [crlfcrlf] at hlt this
        omega
  have h2 : index d lflf = none := by
    cases hj : index d lflf with
    | none => rfl
    | some j =>
        obtain ⟨j', hj', -⟩ := index_of_prefix hd hj
        rw [index_headerBlock_lflf hok] at hj'
        cases hj'
  simp [parseBlock, h1, h2]

namespace WireRequest

theorem lf_not_mem_requestLine (hwf : r.WellFormed) : lf ∉ r.requestLine := by
  simp [requestLine, hwf.lf_method, hwf.lf_target, hwf.lf_proto, show lf ≠ space by decide]

theorem requestLineFields_requestLine (hwf : r.WellFormed) :
    requestLineFields r.requestLine = some r.lineRequest := by
  have h1 : indexByte r.requestLine space = some r.method.length :=
    indexByte_append_cons hwf.space_method _
  have hrest : r.requestLine.drop (r.method.length + 1) = r.target ++ space :: r.proto := by
    simp [requestLine]
  have h2 : indexByte (r.target ++ space :: r.proto) space = some r.target.length :=
    indexByte_append_cons hwf.space_target _
  rw [requestLineFields, h1]
  simp only [hrest, h2, lineRequest]
  congr
  · simp [requestLine]
  · rw [List.drop_take, hrest, show r.target.length + r.method.length + 1 - (r.method.length + 1) =
      r.target.length by omega, List.take_left' rfl]
  · rw [show r.target.length + r.method.length + 1 + 1 = (r.method.length + 1) + (r.target.length + 1) by omega,
      ← List.drop_drop, hrest]
    simp

theorem parseRequest_requestLine (hwf : r.WellFormed) (d : Bytes) :
    parseRequest (r.requestLine ++ cr :: lf :: d) = parseBlock r.lineRequest d := by
  have hlf : lf ∉ r.requestLine ++ [cr] := by
    simp [lf_not_mem_requestLine hwf, show lf ≠ cr by decide]
  have hdata : r.requestLine ++ cr :: lf :: d = (r.requestLine ++ [cr]) ++ lf :: d := by simp
  rw [hdata, parseRequest, indexByte_append_cons hlf]
  dsimp only
  rw [if_neg (by simp)]
  simp only [List.take_left' rfl, List.getLast?_concat, ↓reduceIte, List.dropLast_concat,
    requestLineFields_requestLine hwf]
  rw [show ((r.requestLine ++ [cr]) ++ lf :: d).drop ((r.requestLine ++ [cr]).length + 1) = d by
    rw [show (r.requestLine ++ [cr]) ++ lf :: d = (r.requestLine ++ [cr] ++ [lf]) ++ d by simp]
    exact List.drop_left' (by simp)]

theorem parseRequest_head_append (hwf : r.WellFormed) (t : Bytes) :
    parseRequest (r.head ++ t) = .ok { r.toRequest with body := t } := by
  rw [show r.head ++ t = r.requestLine ++ cr :: lf :: (headerBlock r.headers ++ crlfcrlf ++ t) by
    simp [head], parseRequest_requestLine hwf,
    parseBlock_headerBlock hwf.headers_ok hwf.headers_ne]
  rfl

theorem parseRequest_encode (hwf : r.WellFormed) : parseRequest r.encode = .ok r.toRequest :=
  parseRequest_head_append hwf r.body

theorem parseRequest_of_prefix (hwf : r.WellFormed) {p : Bytes} (hp : p <+: r.head)
    (hlt : p.length < r.head.length) : parseRequest p = .error .invalidRequest := by
  have hline : r.requestLine ++ [cr, lf] <+: r.head := ⟨headerBlock r.headers ++ crlfcrlf, by simp [head]⟩
  by_cases hshort : p.length ≤ r.requestLine.length + 1
  · have hpre : p <+: r.requestLine ++ [cr] :=
      List.prefix_of_prefix_length_le hp ((List.prefix_append _ [lf]).trans (by simpa using hline))
        (by simpa using hshort)
    have hlf : lf ∉ p := fun h => by
      have := hpre.subset h
      simp [lf_not_mem_requestLine hwf, show lf ≠ cr by decide] at this
    rw [parseRequest, indexByte_of_not_mem hlf]
  · obtain ⟨d, rfl⟩ := List.prefix_of_prefix_length_le hline hp (by simp; omega)
    have hd : d <+: headerBlock r.headers ++ crlfcrlf := by
      rw [show r.head = r.requestLine ++ [cr, lf] ++ (headerBlock r.headers ++ crlfcrlf) by simp [head]] at hp
      exact (List.prefix_append_right_inj _).mp hp
    have hdlt : d.length < (headerBlock r.headers ++ crlfcrlf).length := by
      simp [head] at hlt ⊢
      omega
    rw [show r.requestLine ++ [cr, lf] ++ d = r.requestLine ++ cr :: lf :: d by simp,
      parseRequest_requestLine hwf]
    exact parseBlock_of_prefix hwf.headers_ok hwf.headers_ne hd hdlt _

end WireRequest

end Wire

section Cuts

variable {r : WireRequest}

/-- A request cut inside its body parses as a request whose body is what was received:
`ParseRequest` never reads `Content-Length`, so a buffer that holds the head and part of the
body is not taken for partial data, and the request it gives has fewer body bytes than its own
`Content-Length` says. -/
theorem parseRequest_accepts_body_cut (hwf : r.WellFormed)
    (hcl : r.toRequest.contentLength = appendInt [] r.body.length) {k : Nat} (hk : k < r.body.length) :
    r.head ++ r.body.take k <+: r.encode ∧ (r.head ++ r.body.take k).length < r.encode.length ∧
      ∃ q, parseRequest (r.head ++ r.body.take k) = .ok q ∧ q = { r.toRequest with body := r.body.take k } ∧
        parseDecimal q.contentLength = some r.body.length ∧ q.body.length < r.body.length := by
  have hlen : (r.body.take k).length = k := List.length_take_of_le hk.le
  refine ⟨(List.prefix_append_right_inj _).mpr (List.take_prefix k r.body), ?_,
    _, WireRequest.parseRequest_head_append hwf _, rfl, by rw [← parseDecimal_appendInt]; exact congrArg _ hcl,
    by rw [hlen]; exact hk⟩
  simp only [WireRequest.encode, List.length_append, hlen]
  omega

theorem parseRequest_accepts_body_cut_post :
    let r : WireRequest := ⟨lit "POST", lit "/", lit "HTTP/1.1", [(lit "Content-Length", lit "2")], lit "hi"⟩
    r.WellFormed ∧ r.toRequest.contentLength = appendInt [] r.body.length ∧ 1 < r.body.length ∧
      (r.head ++ r.body.take 1 <+: r.encode ∧ (r.head ++ r.body.take 1).length < r.encode.length ∧
        ∃ q, parseRequest (r.head ++ r.body.take 1) = .ok q ∧ q = { r.toRequest with body := r.body.take 1 } ∧
          parseDecimal q.contentLength = some r.body.length ∧ q.body.length < r.body.length) :=
  ⟨by decide, by decide, by decide, parseRequest_accepts_body_cut (by decide) (by decide) (by decide)⟩

/-- Three well-formed requests that `ParseRequest` does not read back: one without headers is
rejected, and in one with bare-LF line ends the headers are dropped, or, when its body holds a
CRLF CRLF, the headers are read up to there and the body is cut. -/
theorem parseRequest_misreads_lf_and_headerless :
    parseRequest (lit "GET / HTTP/1.1\r\n\r\n") = .error .invalidRequest ∧
      parseRequest (lit "GET / HTTP/1.1\nHost: h\n\n") =
        .ok { Request.empty with method := lit "GET", path := lit "/", proto := lit "HTTP/1.1" } ∧
      parseRequest (lit "POST / HTTP/1.1\nHost: h\n\na\r\n\r\nb") =
        .ok { Request.empty with
          method := lit "POST", path := lit "/", proto := lit "HTTP/1.1", host := lit "h", body := lit "b" } := by
  decide

end Cuts

section Panic

theorem indexByte_eq_some_zero (s : Bytes) (c : UInt8) : indexByte s c = some 0 ↔ s.head? = some c := by
  cases s with
  | nil => simp [indexByte]
  | cons a s => by_cases h : a = c <;> simp [indexByte, h]

theorem parseBlock_ne_panic (req : Request) (data : Bytes) (msg : String) :
    parseBlock req data ≠ .error (.panic msg) := by
  unfold parseBlock
  split
  · simp
  · split <;> simp

/-- `ParseRequest` panics on exactly the data that starts with `'\n'`: the request line is then
empty and `line[len(line)-1]` indexes `-1`. On every other input it returns a request or
`ErrInvalidRequest`. -/
theorem parseRequest_panic_iff (data : Bytes) :
    (∃ msg, parseRequest data = .error (.panic msg)) ↔ data.head? = some lf := by
  rw [← indexByte_eq_some_zero]
  unfold parseRequest
  cases h : indexByte data lf with
  | none => simp
  | some lineEnd =>
      dsimp only
      by_cases h0 : lineEnd = 0
      · simp [h0]
      · rw [if_neg h0]
        split <;> simp [h0, parseBlock_ne_panic]

end Panic

end FastServer.Parser
