import FastServer.Decimal

namespace FastServer.Sse

open Response (digitByte digitByte_toNat)
open Decimal (formatInt)

def lf : UInt8 := 10
def cr : UInt8 := 13
def space : UInt8 := 32

/-- `sse.Event`; `Retry` is in milliseconds. -/
structure Event where
  id : Bytes
  event : Bytes
  data : Bytes
  retry : Int
  deriving DecidableEq, Repr

/-- `FormatEvent`: a line for each of `ID`, `Event` and `Data` that is not empty and for a
positive `Retry`, then a blank line. -/
def formatEvent (event : Event) : Bytes :=
  (if event.id ≠ [] then lit "id: " ++ event.id ++ [lf] else []) ++
  (if event.event ≠ [] then lit "event: " ++ event.event ++ [lf] else []) ++
  (if event.retry > 0 then lit "retry: " ++ formatInt event.retry ++ [lf] else []) ++
  (if event.data ≠ [] then lit "data: " ++ event.data ++ [lf] else []) ++ [lf]

/-- The lines of a stream, each ended by CRLF, LF or CR; `line` is the line read so far, and
what follows the last line end is dropped. -/
def lines (line : Bytes) : Bytes → List Bytes
  | [] => []
  | [b] => if b = cr ∨ b = lf then [line] else []
  | b :: c :: rest =>
      if b = cr ∧ c = lf then line :: lines [] rest
      else if b = cr ∨ b = lf then line :: lines [] (c :: rest)
      else lines (line ++ [b]) (c :: rest)

/-- A line's field name and value: the name up to the first colon, the value after it less one
leading space; a line with no colon is a field name with an empty value. -/
def splitField (line : Bytes) : Bytes × Bytes :=
  match line.dropWhile (· != colon) with
  | [] => (line, [])
  | _ :: value => (line.takeWhile (· != colon), if value.head? = some space then value.tail else value)

/-- The buffers of a client reading an event stream. -/
structure StreamState where
  eventType : Bytes
  data : Bytes
  lastEventId : Bytes
  reconnectionTime : Option Nat
  deriving DecidableEq, Repr

def StreamState.initial : StreamState := ⟨[], [], [], none⟩

/-- A dispatched `MessageEvent`: its type, data and last event ID. -/
structure Dispatched where
  type : Bytes
  data : Bytes
  lastEventId : Bytes
  deriving DecidableEq, Repr

def isDigit (b : UInt8) : Bool := 48 ≤ b && b ≤ 57

/-- The value of a string of ASCII digits in base ten. -/
def digitsValue (value : Bytes) : Nat := value.foldl (fun n b => n * 10 + (b.toNat - 48)) 0

/-- Processing the field `name` with `value`. -/
def StreamState.field (st : StreamState) (name value : Bytes) : StreamState :=
  if name = lit "event" then { st with eventType := value }
  else if name = lit "data" then { st with data := st.data ++ value ++ [lf] }
  else if name = lit "id" then (if 0 ∈ value then st else { st with lastEventId := value })
  else if name = lit "retry" then
    (if value ≠ [] ∧ value.all isDigit then { st with reconnectionTime := some (digitsValue value) } else st)
  else st

/-- Dispatching the event at a blank line: none when the data buffer is empty. -/
def StreamState.dispatch (st : StreamState) : StreamState × Option Dispatched :=
  ({ st with eventType := [], data := [] },
    if st.data = [] then none
    else some ⟨if st.eventType = [] then lit "message" else st.eventType,
      if st.data.getLast? = some lf then st.data.dropLast else st.data, st.lastEventId⟩)

/-- One line: a blank line dispatches, a line starting with a colon is a comment, and any other
is a field. -/
def StreamState.line (st : StreamState) (line : Bytes) : StreamState × Option Dispatched :=
  if line = [] then st.dispatch
  else if line.head? = some colon then (st, none)
  else (st.field (splitField line).1 (splitField line).2, none)

/-- The events dispatched over `lines`, and the buffers after them. -/
def StreamState.run : StreamState → List Bytes → List Dispatched × StreamState
  | st, [] => ([], st)
  | st, l :: ls => ((st.line l).2.toList ++ ((st.line l).1.run ls).1, ((st.line l).1.run ls).2)

/-- A client reading `stream` from its start. -/
def parseStream (stream : Bytes) : List Dispatched × StreamState := StreamState.initial.run (lines [] stream)

section RoundTrip

/-- Bytes that end no line. -/
def Plain (l : Bytes) : Prop := ∀ b ∈ l, b ≠ cr ∧ b ≠ lf

theorem plain_append {a b : Bytes} (ha : Plain a) (hb : Plain b) : Plain (a ++ b) := by
  intro x hx
  rcases List.mem_append.mp hx with h | h
  exacts [ha x h, hb x h]

theorem lines_lf (line rest : Bytes) : lines line (lf :: rest) = line :: lines [] rest := by
  cases rest with
  | nil => rfl
  | cons c rest => rw [lines, if_neg (by simp [lf, cr]), if_pos (Or.inr rfl)]

theorem lines_plain_cons {line t : Bytes} {b : UInt8} (hb : b ≠ cr ∧ b ≠ lf) (ht : t ≠ []) :
    lines line (b :: t) = lines (line ++ [b]) t := by
  obtain ⟨c, rest, rfl⟩ := List.exists_cons_of_ne_nil ht
  rw [lines, if_neg (by simp [hb.1]), if_neg (by simp [hb.1, hb.2])]

theorem lines_plain (line : Bytes) {l : Bytes} (hl : Plain l) (rest : Bytes) :
    lines line (l ++ lf :: rest) = (line ++ l) :: lines [] rest := by
  induction l generalizing line with
  | nil => rw [List.nil_append, List.append_nil, lines_lf]
  | cons b l ih =>
      rw [List.cons_append, lines_plain_cons (hl b (List.mem_cons_self b l)) (by simp),
        ih _ (fun x hx => hl x (List.mem_cons_of_mem b hx)), List.append_assoc, List.singleton_append]

theorem lines_optional (c : Prop) [Decidable c] (pre : Bytes) {l : Bytes} (hl : c → Plain (pre ++ l))
    (rest : Bytes) :
    lines [] ((if c then pre ++ (l ++ [lf]) else []) ++ rest) = (if c then [pre ++ l] else []) ++ lines [] rest := by
  split_ifs with h
  · rw [← List.append_assoc, List.append_assoc, List.singleton_append, lines_plain [] (hl h), List.nil_append,
      List.singleton_append]
  · rfl

theorem splitField_field {name : Bytes} (hname : colon ∉ name) (value : Bytes) :
    splitField (name ++ colon :: space :: value) = (name, value) := by
  have hpos : ∀ b ∈ name, (b != colon) = true := fun b hb => by
    have : b ≠ colon := fun h => hname (h ▸ hb)
    simpa using this
  unfold splitField
  rw [List.dropWhile_append_of_pos hpos, List.dropWhile_cons_of_neg (by simp)]
  simp [List.takeWhile_append_of_pos hpos]

theorem line_field (st : StreamState) {name : Bytes} (hname : colon ∉ name) (hne : name ≠ []) (value : Bytes) :
    st.line (name ++ colon :: space :: value) = (st.field name value, none) := by
  obtain ⟨b, name', rfl⟩ := List.exists_cons_of_ne_nil hne
  have hb : b ≠ colon := fun h => hname (h ▸ List.mem_cons_self b name')
  rw [StreamState.line, if_neg (by simp), if_neg (by simpa using hb), splitField_field hname]

theorem run_optional (st : StreamState) (c : Prop) [Decidable c] {l : Bytes} {f : StreamState → StreamState}
    (hl : c → ∀ st : StreamState, st.line l = (f st, none)) (ls : List Bytes) :
    st.run ((if c then [l] else []) ++ ls) = (if c then f st else st).run ls := by
  split_ifs with h
  · simp [StreamState.run, hl h]
  · rfl

theorem digitsValue_digits (L : List Nat) (hL : ∀ d ∈ L, d < 10) :
    digitsValue (L.reverse.map digitByte) = Nat.ofDigits 10 L := by
  induction L with
  | nil => rfl
  | cons d L ih =>
      have hd := digitByte_toNat (hL d (List.mem_cons_self d L))
      rw [digitsValue, List.reverse_cons, List.map_append, List.foldl_append, ← digitsValue,
        ih (fun x hx => hL x (List.mem_cons_of_mem d hx))]
      simp [hd, Nat.ofDigits_cons]
      ring

theorem formatInt_pos {r : Int} (hr : 0 < r) :
    Plain (formatInt r) ∧ formatInt r ≠ [] ∧ (formatInt r).all isDigit = true ∧
      digitsValue (formatInt r) = r.toNat := by
  rw [Decimal.formatInt_of_ne (by omega), if_neg (by omega), List.nil_append]
  have hdig : ∀ d ∈ Nat.digits 10 r.natAbs, d < 10 := fun d hd => Nat.digits_lt_base (by decide) hd
  have hbyte : ∀ b ∈ (Nat.digits 10 r.natAbs).reverse.map digitByte, 48 ≤ b.toNat ∧ b.toNat ≤ 57 := by
    intro b hb
    obtain ⟨d, hd, rfl⟩ := List.mem_map.mp hb
    have := hdig d (List.mem_reverse.mp hd)
    rw [digitByte_toNat this]
    omega
  refine ⟨fun b hb => ?_, ?_, ?_, ?_⟩
  · have := hbyte b hb
    constructor <;> intro h <;> subst h <;> exact absurd this (by decide)
  · simp [Nat.digits_ne_nil_iff_ne_zero]; omega
  · rw [List.all_eq_true]
    intro b hb
    have := hbyte b hb
    simp only [isDigit, Bool.and_eq_true, decide_eq_true_eq]
    exact ⟨this.1, this.2⟩
  · rw [digitsValue_digits _ hdig, Nat.ofDigits_digits]
    omega

theorem field_line (st : StreamState) (pre name : Bytes) (hpre : pre = name ++ [colon, space])
    (hname : colon ∉ name) (hne : name ≠ []) (value : Bytes) :
    st.line (pre ++ value) = (st.field name value, none) := by
  rw [hpre, List.append_assoc, List.cons_append, List.cons_append, List.nil_append, line_field st hname hne]

theorem lines_formatEvent (e : Event) (hdata : e.data ≠ []) (hid : Plain e.id) (hev : Plain e.event)
    (hd : Plain e.data) :
    lines [] (formatEvent e) =
      (if e.id ≠ [] then [lit "id: " ++ e.id] else []) ++ (if e.event ≠ [] then [lit "event: " ++ e.event] else []) ++
        (if e.retry > 0 then [lit "retry: " ++ formatInt e.retry] else []) ++ [lit "data: " ++ e.data, []] := by
  have hlit : ∀ s ∈ ["id: ", "event: ", "retry: ", "data: "], Plain (lit s) := by unfold Plain; decide
  rw [formatEvent, if_pos hdata]
  simp only [List.append_assoc]
  rw [lines_optional _ _ (fun _ => plain_append (hlit _ (by simp)) hid),
    lines_optional _ _ (fun _ => plain_append (hlit _ (by simp)) hev),
    lines_optional _ _ (fun h => plain_append (hlit _ (by simp)) (formatInt_pos h).1),
    show lit "data: " ++ (e.data ++ ([lf] ++ [lf])) = (lit "data: " ++ e.data) ++ lf :: [lf] by simp,
    lines_plain [] (plain_append (hlit _ (by simp)) hd)]
  rfl

theorem run_data_blank (st : StreamState) (hst : st.data = []) {data : Bytes} (hdata : data ≠ []) :
    st.run [lit "data: " ++ data, []] =
      ([⟨if st.eventType = [] then lit "message" else st.eventType, data, st.lastEventId⟩],
        ⟨[], [], st.lastEventId, st.reconnectionTime⟩) := by
  have hline := field_line st (lit "data: ") (lit "data") (by decide) (by decide) (by decide) data
  rw [StreamState.field, if_neg (by decide), if_pos rfl, hst, List.nil_append] at hline
  simp only [StreamState.run, hline]
  simp [StreamState.line, StreamState.dispatch, hdata]

/-- A client that reads what `FormatEvent` writes for an event with data, whose fields hold no
line end and whose ID holds no NUL, dispatches exactly that event, takes its ID as the last
event ID and a positive `Retry` as the reconnection time. -/
theorem parseStream_formatEvent (e : Event) (hdata : e.data ≠ []) (hid : Plain e.id ∧ 0 ∉ e.id)
    (hev : Plain e.event) (hd : Plain e.data) :
    parseStream (formatEvent e) =
      ([⟨if e.event = [] then lit "message" else e.event, e.data, e.id⟩],
        ⟨[], [], e.id, if e.retry > 0 then some e.retry.toNat else none⟩) := by
  rw [parseStream, lines_formatEvent e hdata hid.1 hev hd, List.append_assoc, List.append_assoc,
    run_optional _ _ (f := fun st => { st with lastEventId := e.id }) (fun _ st => by
      rw [field_line st (lit "id: ") (lit "id") (by decide) (by decide) (by decide), StreamState.field,
        if_neg (by decide), if_neg (by decide), if_pos rfl, if_neg hid.2]),
    run_optional _ _ (f := fun st => { st with eventType := e.event }) (fun _ st => by
      rw [field_line st (lit "event: ") (lit "event") (by decide) (by decide) (by decide), StreamState.field, if_pos rfl]),
    run_optional _ _ (f := fun st => { st with reconnectionTime := some e.retry.toNat }) (fun h st => by
      obtain ⟨_, hne, hall, hval⟩ := formatInt_pos h
      rw [field_line st (lit "retry: ") (lit "retry") (by decide) (by decide) (by decide), StreamState.field,
        if_neg (by decide), if_neg (by decide), if_neg (by decide), if_pos rfl, if_pos ⟨hne, hall⟩, hval]),
    run_data_blank _ (by split_ifs <;> rfl) hdata]
  by_cases hi : e.id = [] <;> by_cases he : e.event = [] <;> by_cases hr : e.retry > 0 <;>
    simp [hi, he, hr, StreamState.initial]

/-- `FormatEvent` read back by a client: every event with data whose fields hold no CR or LF, and
whose ID holds no NUL, comes back whole, with its ID, type and data, and a positive `Retry` as
the reconnection time. A line break in `Data` ends the data line early: for `Data = "a\nb"` the
client dispatches the data `a` and reads `b` as a field it ignores. -/
theorem formatEvent_splits_multiline_data :
    (∀ e : Event, e.data ≠ [] → Plain e.id → 0 ∉ e.id → Plain e.event → Plain e.data →
      parseStream (formatEvent e) =
        ([⟨if e.event = [] then lit "message" else e.event, e.data, e.id⟩],
          ⟨[], [], e.id, if e.retry > 0 then some e.retry.toNat else none⟩)) ∧
    parseStream (formatEvent ⟨lit "7", [], lit "a\nb", 0⟩) =
      ([⟨lit "message", lit "a", lit "7"⟩], ⟨[], [], lit "7", none⟩) :=
  ⟨fun e hdata hid hnul hev hd => parseStream_formatEvent e hdata ⟨hid, hnul⟩ hev hd, by decide⟩

end RoundTrip

end FastServer.Sse
