import FastServer.Protocol

namespace FastServer.Websocket

open Protocol (putUint16 uint16 uint16_putUint16 toNat_byte)

def opContinuation : UInt8 := 0x0
def opText : UInt8 := 0x1
def opBinary : UInt8 := 0x2
def opClose : UInt8 := 0x8
def opPing : UInt8 := 0x9
def opPong : UInt8 := 0xA

structure Frame where
  fin : Bool
  opCode : UInt8
  masked : Bool
  payload : Bytes
  deriving DecidableEq, Repr

structure Message where
  opCode : UInt8
  payload : Bytes
  deriving DecidableEq, Repr

/-- A `Conn` of package websocket: the bytes of the peer not yet read, front first, the bytes
written to it, `maxMessageSize` (an `int64`) and `closed`. -/
structure Conn where
  input : Bytes
  output : Bytes
  maxMessageSize : Int
  closed : Bool
  deriving DecidableEq, Repr

/-- `NewConn(conn)` on a peer that sends `input`. -/
def newConn (input : Bytes) : Conn := ⟨input, [], 1024 * 1024, false⟩

/-- `binary.BigEndian.PutUint64`. -/
def putUint64 (v : UInt64) : Bytes :=
  [UInt8.ofNat (v.toNat / 2 ^ 56), UInt8.ofNat (v.toNat / 2 ^ 48), UInt8.ofNat (v.toNat / 2 ^ 40),
    UInt8.ofNat (v.toNat / 2 ^ 32), UInt8.ofNat (v.toNat / 2 ^ 24), UInt8.ofNat (v.toNat / 2 ^ 16),
    UInt8.ofNat (v.toNat / 2 ^ 8), UInt8.ofNat v.toNat]

/-- `binary.BigEndian.Uint64` of the first eight bytes. -/
def uint64 (b : Bytes) : UInt64 :=
  UInt64.ofNat ((b.getD 0 0).toNat * 2 ^ 56 + (b.getD 1 0).toNat * 2 ^ 48 + (b.getD 2 0).toNat * 2 ^ 40 +
    (b.getD 3 0).toNat * 2 ^ 32 + (b.getD 4 0).toNat * 2 ^ 24 + (b.getD 5 0).toNat * 2 ^ 16 +
    (b.getD 6 0).toNat * 2 ^ 8 + (b.getD 7 0).toNat)

/-- Go's conversion `int64(u)` of a `uint64`: two's complement. -/
def toInt64 (u : UInt64) : Int := if u.toNat < 2 ^ 63 then u.toNat else (u.toNat : Int) - 2 ^ 64

/-- `io.ReadFull` into a buffer of `n` bytes: `io.EOF` when nothing is left, `io.ErrUnexpectedEOF`
when the stream ends inside the buffer. -/
def readFull (n : Nat) (input : Bytes) : Except String (Bytes × Bytes) :=
  if n ≤ input.length then .ok (input.take n, input.drop n)
  else if input = [] then .error "EOF" else .error "unexpected EOF"

/-- The bytes `WriteFrame` writes for `frame`; it never sets the mask bit. -/
def frameBytes (frame : Frame) : Bytes :=
  let firstByte := if frame.fin then frame.opCode ||| 0x80 else frame.opCode
  let payloadLen := frame.payload.length
  let lengthBytes :=
    if payloadLen < 126 then [UInt8.ofNat payloadLen]
    else if payloadLen < 65536 then 126 :: putUint16 (UInt16.ofNat payloadLen)
    else 127 :: putUint64 (UInt64.ofNat payloadLen)
  firstByte :: lengthBytes ++ if payloadLen > 0 then frame.payload else []

/-- `WriteFrame`: `io.EOF` once the connection is closed; errors of the writer are not modelled. -/
def Conn.writeFrame (c : Conn) (frame : Frame) : Except String Conn :=
  if c.closed then .error "EOF" else .ok { c with output := c.output ++ frameBytes frame }

/-- `Close`: `closed` is set before the close frame is written, so `WriteFrame` refuses it. -/
def Conn.close (c : Conn) : Conn :=
  let c := { c with closed := true }
  match c.writeFrame ⟨true, opClose, false, []⟩ with
  | .ok c => c
  | .error _ => c

/-- `payloadLen` of `readFrame` after the 7-bit length `len`: `int64` of `len`, or of the
big-endian 16-bit or 64-bit field read after it. -/
def readPayloadLen (len : UInt8) (input : Bytes) : Except String (Int × Bytes) :=
  if len = 126 then (readFull 2 input).map fun r => ((uint16 r.1).toNat, r.2)
  else if len = 127 then (readFull 8 input).map fun r => (toInt64 (uint64 r.1), r.2)
  else .ok (len.toNat, input)

/-- The unmasking loop, `frame.Payload[i] ^= maskingKey[i%4]`, from index `i` on. -/
def unmask (maskingKey : Bytes) : Nat → Bytes → Bytes
  | _, [] => []
  | i, b :: bs => (b ^^^ maskingKey.getD (i % 4) 0) :: unmask maskingKey (i + 1) bs

/-- The masking key of `readFrame`: four bytes when the frame is masked, none otherwise. -/
def readMaskingKey (masked : Bool) (input : Bytes) : Except String (Bytes × Bytes) :=
  if masked then readFull 4 input else .ok ([], input)

/-- The payload of `readFrame`: `payloadLen` bytes when it is positive, none otherwise. -/
def readPayload (payloadLen : Int) (input : Bytes) : Except String (Bytes × Bytes) :=
  if payloadLen > 0 then readFull payloadLen.toNat input else .ok ([], input)

/-- `readFrame`. After an error the reader's position is not modelled: every caller gives up. -/
def Conn.readFrame (c : Conn) : Except String (Frame × Conn) := do
  let (header, input) ← readFull 2 c.input
  let h0 := header.getD 0 0
  let h1 := header.getD 1 0
  let masked := h1 &&& 0x80 != 0
  let (payloadLen, input) ← readPayloadLen (h1 &&& 0x7F) input
  if payloadLen > c.maxMessageSize then
    throw ("message too large: " ++ toString payloadLen ++ " > " ++ toString c.maxMessageSize)
  else
    let (maskingKey, input) ← readMaskingKey masked input
    let (payload, input) ← readPayload payloadLen input
    pure (⟨h0 &&& 0x80 != 0, h0 &&& 0x0F, masked, if masked then unmask maskingKey 0 payload else payload⟩,
      { c with input := input })

/-- `n` successive calls of `readFrame`. -/
def Conn.readFrames : Nat → Conn → Except String (List Frame × Conn)
  | 0, c => .ok ([], c)
  | n + 1, c => do
      let (frame, c) ← c.readFrame
      let (frames, c) ← c.readFrames n
      pure (frame :: frames, c)

section Codec

theorem readFull_append {n : Nat} {x : Bytes} (rest : Bytes) (h : x.length = n) :
    readFull n (x ++ rest) = .ok (x, rest) := by
  subst h; simp [readFull]

theorem readFull_eq_ok {n : Nat} {input x rest : Bytes} :
    readFull n input = .ok (x, rest) ↔ input = x ++ rest ∧ x.length = n := by
  constructor
  · unfold readFull
    split_ifs with hn
    · intro h
      cases h
      exact ⟨(List.take_append_drop n input).symm, List.length_take_of_le hn⟩
    all_goals intro h; cases h
  · rintro ⟨rfl, rfl⟩; exact readFull_append rest rfl

theorem mod_two_pow_add_eight (x k : Nat) : x % 2 ^ (k + 8) = x / 2 ^ k % 256 * 2 ^ k + x % 2 ^ k := by
  rw [Nat.pow_add, Nat.mod_mul, Nat.add_comm, Nat.mul_comm]

theorem uint64_putUint64 (v : UInt64) (t : Bytes) : uint64 (putUint64 v ++ t) = v := by
  apply UInt64.toNat.inj
  have hv : v.toNat < 2 ^ 64 := v.toNat_lt_size
  have hbytes : v.toNat / 2 ^ 56 % 256 * 2 ^ 56 + v.toNat / 2 ^ 48 % 256 * 2 ^ 48 +
      v.toNat / 2 ^ 40 % 256 * 2 ^ 40 + v.toNat / 2 ^ 32 % 256 * 2 ^ 32 +
      v.toNat / 2 ^ 24 % 256 * 2 ^ 24 + v.toNat / 2 ^ 16 % 256 * 2 ^ 16 +
      v.toNat / 2 ^ 8 % 256 * 2 ^ 8 + v.toNat % 256 = v.toNat := by
    have h64 := mod_two_pow_add_eight v.toNat 56
    rw [Nat.mod_eq_of_lt hv] at h64
    have := mod_two_pow_add_eight v.toNat 0
    have := mod_two_pow_add_eight v.toNat 8
    have := mod_two_pow_add_eight v.toNat 16
    have := mod_two_pow_add_eight v.toNat 24
    have := mod_two_pow_add_eight v.toNat 32
    have := mod_two_pow_add_eight v.toNat 40
    have := mod_two_pow_add_eight v.toNat 48
    simp only [Nat.pow_zero, Nat.div_one, Nat.mod_one] at *
    omega
  simp only [uint64, putUint64, List.cons_append, List.getD_cons_zero, List.getD_cons_succ, toNat_byte, hbytes]
  exact UInt64.toNat_ofNat_of_lt hv

theorem toInt64_of_lt {u : UInt64} (h : u.toNat < 2 ^ 63) : toInt64 u = u.toNat := if_pos h

theorem firstByte_bits : ∀ k < 16, ∀ fin : Bool,
    ((if fin then UInt8.ofNat k ||| 0x80 else UInt8.ofNat k) &&& 0x80 != 0) = fin ∧
      (if fin then UInt8.ofNat k ||| 0x80 else UInt8.ofNat k) &&& 0x0F = UInt8.ofNat k := by
  decide

theorem lengthByte_bits : ∀ n < 126,
    (UInt8.ofNat n &&& 0x80 != 0) = false ∧ UInt8.ofNat n &&& 0x7F = UInt8.ofNat n ∧
      UInt8.ofNat n ≠ 126 ∧ UInt8.ofNat n ≠ 127 := by
  decide

@[simp] theorem readMaskingKey_false (input : Bytes) : readMaskingKey false input = .ok ([], input) := rfl

theorem readPayload_length (payload rest : Bytes) :
    readPayload payload.length (payload ++ rest) = .ok (payload, rest) := by
  unfold readPayload
  split_ifs with hpos
  · exact readFull_append rest (by omega)
  · obtain rfl : payload = [] := List.eq_nil_of_length_eq_zero (by omega)
    rfl

theorem readFrame_unmasked (c : Conn) (h0 h1 : UInt8) {r1 r2 payload rest : Bytes} {payloadLen : Int}
    (hmask : (h1 &&& 0x80 != 0) = false)
    (hlen : readPayloadLen (h1 &&& 0x7F) r1 = .ok (payloadLen, r2)) (hmax : payloadLen ≤ c.maxMessageSize)
    (hbody : readPayload payloadLen r2 = .ok (payload, rest)) :
    { c with input := h0 :: h1 :: r1 }.readFrame =
      .ok (⟨h0 &&& 0x80 != 0, h0 &&& 0x0F, false, payload⟩, { c with input := rest }) := by
  have hhead : readFull 2 (h0 :: h1 :: r1) = .ok ([h0, h1], r1) := readFull_append (x := [h0, h1]) _ rfl
  rw [Conn.readFrame]
  simp only [hhead, except_ok_bind, List.getD_cons_zero, List.getD_cons_succ, hmask, hlen,
    if_neg (Int.not_lt.mpr hmax), readMaskingKey_false, hbody]
  rfl

theorem readPayloadLen_lengthBytes {n : Nat} (hn : n < 2 ^ 63) (t : Bytes) :
    ∃ h1 ext, (if n < 126 then [UInt8.ofNat n] else if n < 65536 then 126 :: putUint16 (UInt16.ofNat n)
        else 127 :: putUint64 (UInt64.ofNat n)) = h1 :: ext ∧
      (h1 &&& 0x80 != 0) = false ∧ readPayloadLen (h1 &&& 0x7F) (ext ++ t) = .ok (n, t) := by
  by_cases h7 : n < 126
  · obtain ⟨hm, hl, h126, h127⟩ := lengthByte_bits n h7
    refine ⟨UInt8.ofNat n, [], if_pos h7, hm, ?_⟩
    rw [hl, readPayloadLen, if_neg h126, if_neg h127, UInt8.toNat_ofNat_of_lt (by show n < 256; omega)]
    rfl
  · by_cases h16 : n < 65536
    · refine ⟨126, putUint16 (UInt16.ofNat n), by rw [if_neg h7, if_pos h16], by decide, ?_⟩
      rw [show (126 : UInt8) &&& 0x7F = 126 by decide, readPayloadLen, if_pos rfl,
        readFull_append (n := 2) (x := putUint16 _) t rfl, except_map_ok]
      dsimp only
      rw [← List.append_nil (putUint16 _), uint16_putUint16, UInt16.toNat_ofNat_of_lt (by show n < 65536; omega)]
    · refine ⟨127, putUint64 (UInt64.ofNat n), by rw [if_neg h7, if_neg h16], by decide, ?_⟩
      have hlt : (UInt64.ofNat n).toNat = n := UInt64.toNat_ofNat_of_lt (by show n < 2 ^ 64; omega)
      rw [show (127 : UInt8) &&& 0x7F = 127 by decide, readPayloadLen, if_neg (by decide), if_pos rfl,
        readFull_append (n := 8) (x := putUint64 _) t rfl, except_map_ok]
      dsimp only
      rw [← List.append_nil (putUint64 _), uint64_putUint64, toInt64_of_lt (by omega), hlt]

theorem readFrame_frameBytes (c : Conn) (hmax : c.maxMessageSize < 2 ^ 63) (f : Frame)
    (hop : f.opCode ≤ 0x0F) (hlen : (f.payload.length : Int) ≤ c.maxMessageSize) (rest : Bytes) :
    { c with input := frameBytes f ++ rest }.readFrame = .ok ({ f with masked := false }, { c with input := rest }) := by
  have hk : f.opCode.toNat < 16 := Nat.lt_succ_of_le hop
  have hop' : f.opCode = UInt8.ofNat f.opCode.toNat := UInt8.toNat.inj (UInt8.toNat_ofNat_of_lt (by show f.opCode.toNat < 256; omega)).symm
  obtain ⟨hfin, hcode⟩ := firstByte_bits _ hk f.fin
  rw [← hop'] at hfin hcode
  obtain ⟨h1, ext, hbytes, hmask, hread⟩ := readPayloadLen_lengthBytes (n := f.payload.length) (by omega)
    (f.payload ++ rest)
  have hpay : (if f.payload.length > 0 then f.payload else []) = f.payload := by
    split_ifs with h
    · rfl
    · exact (List.eq_nil_of_length_eq_zero (by omega)).symm
  have hstream : frameBytes f ++ rest =
      (if f.fin then f.opCode ||| 0x80 else f.opCode) :: h1 :: (ext ++ f.payload ++ rest) := by
    simp only [frameBytes, hbytes, hpay, List.cons_append, List.append_assoc]
  rw [hstream, List.append_assoc, readFrame_unmasked c _ h1 hmask hread hlen (readPayload_length f.payload rest),
    hfin, hcode]

theorem writeFrame_of_open {c : Conn} (h : c.closed = false) (frame : Frame) :
    c.writeFrame frame = .ok { c with output := c.output ++ frameBytes frame } := by
  rw [Conn.writeFrame, if_neg (by simp [h])]

theorem writeFrames_output {c : Conn} (h : c.closed = false) (fs : List Frame) :
    fs.foldlM Conn.writeFrame c = .ok { c with output := c.output ++ fs.flatMap frameBytes } := by
  induction fs generalizing c with
  | nil => simp; rfl
  | cons f fs ih =>
      rw [List.foldlM_cons, writeFrame_of_open h, except_ok_bind,
        ih (c := { c with output := c.output ++ frameBytes f }) h]
      simp

/-- Frames with four-bit opcodes and payloads within the limit, written one after the other by
`WriteFrame`, are read back in order by `readFrame`, unmasked, and each read consumes exactly
the bytes of one write. -/
theorem writeFrame_readFrame_round_trip (c : Conn) (hmax : c.maxMessageSize < 2 ^ 63) (fs : List Frame)
    (hfs : ∀ f ∈ fs, f.opCode ≤ 0x0F ∧ (f.payload.length : Int) ≤ c.maxMessageSize) (rest : Bytes) :
    (c.closed = false → fs.foldlM Conn.writeFrame c = .ok { c with output := c.output ++ fs.flatMap frameBytes }) ∧
    (∀ f ∈ fs, { c with input := frameBytes f ++ rest }.readFrame =
      .ok ({ f with masked := false }, { c with input := rest })) ∧
    { c with input := fs.flatMap frameBytes ++ rest }.readFrames fs.length =
      .ok (fs.map fun f => { f with masked := false }, { c with input := rest }) := by
  refine ⟨fun h => writeFrames_output h fs,
    fun f hf => readFrame_frameBytes c hmax f (hfs f hf).1 (hfs f hf).2 rest, ?_⟩
  induction fs with
  | nil => rfl
  | cons f fs ih =>
      have hf := hfs f (List.mem_cons_self f fs)
      rw [List.flatMap_cons, List.append_assoc, List.length_cons, Conn.readFrames,
        readFrame_frameBytes c hmax f hf.1 hf.2, except_ok_bind]
      dsimp only
      rw [ih (fun g hg => hfs g (List.mem_cons_of_mem f hg)), except_ok_bind]
      rfl

/-- A Text frame with a 7-bit length and a masked Binary fragment with a 16-bit length. -/
theorem writeFrame_readFrame_round_trip_two_frames :
    (newConn []).maxMessageSize < 2 ^ 63 ∧
    (∀ f ∈ ([⟨true, opText, false, lit "hi"⟩, ⟨false, opBinary, true, List.replicate 126 7⟩] : List Frame),
      f.opCode ≤ 0x0F ∧ (f.payload.length : Int) ≤ (newConn []).maxMessageSize) ∧
    ((newConn []).closed = false →
      ([⟨true, opText, false, lit "hi"⟩, ⟨false, opBinary, true, List.replicate 126 7⟩] : List Frame).foldlM Conn.writeFrame
        (newConn []) = .ok { newConn [] with output := (newConn []).output ++
          ([⟨true, opText, false, lit "hi"⟩, ⟨false, opBinary, true, List.replicate 126 7⟩] : List Frame).flatMap frameBytes }) ∧
    (∀ f ∈ ([⟨true, opText, false, lit "hi"⟩, ⟨false, opBinary, true, List.replicate 126 7⟩] : List Frame),
      { newConn [] with input := frameBytes f ++ [] }.readFrame =
        .ok ({ f with masked := false }, { newConn [] with input := [] })) ∧
    { newConn [] with
        input := ([⟨true, opText, false, lit "hi"⟩, ⟨false, opBinary, true, List.replicate 126 7⟩] : List Frame).flatMap frameBytes ++ [] }.readFrames 2 =
      .ok (([⟨true, opText, false, lit "hi"⟩, ⟨false, opBinary, true, List.replicate 126 7⟩] : List Frame).map
        (fun f => { f with masked := false }), { newConn [] with input := [] }) :=
  have hfs : ∀ f ∈ ([⟨true, opText, false, lit "hi"⟩, ⟨false, opBinary, true, List.replicate 126 7⟩] : List Frame),
      f.opCode ≤ 0x0F ∧ (f.payload.length : Int) ≤ (newConn []).maxMessageSize := by
    simp only [List.forall_mem_cons, List.not_mem_nil, false_imp_iff, implies_true, and_true, List.length_replicate]
    decide
  ⟨by decide, hfs, writeFrame_readFrame_round_trip (newConn []) (by decide) _ hfs []⟩

end Codec

section Decoder

/-- The size of the extended length field after the 7-bit length `len`. -/
def extLengthSize (len : UInt8) : Nat := if len = 126 then 2 else if len = 127 then 8 else 0

/-- The payload length a header declares after its 7-bit length `len`, read as RFC 6455 reads
it: the 7-bit length, or the unsigned 16-bit or 64-bit field at the front of `ext`. -/
def lengthField (len : UInt8) (ext : Bytes) : Nat :=
  if len = 126 then (uint16 ext).toNat else if len = 127 then (uint64 ext).toNat else len.toNat

/-- The payload length the header at the front of `input` declares. -/
def declaredLength (input : Bytes) : Nat := lengthField (input.getD 1 0 &&& 0x7F) (input.drop 2)

/-- The size of the header at the front of `input`: two bytes, the extended length field, and
the masking key when the mask bit is set. -/
def headerLength (input : Bytes) : Nat :=
  2 + extLengthSize (input.getD 1 0 &&& 0x7F) + if (input.getD 1 0 &&& 0x80 != 0) = true then 4 else 0

theorem uint16_append {x : Bytes} (hx : x.length = 2) (t : Bytes) : uint16 (x ++ t) = uint16 x := by
  match x, hx with
  | [_, _], _ => rfl

theorem uint64_append {x : Bytes} (hx : x.length = 8) (t : Bytes) : uint64 (x ++ t) = uint64 x := by
  match x, hx with
  | [_, _, _, _, _, _, _, _], _ => rfl

theorem toInt64_cases (u : UInt64) : toInt64 u = u.toNat ∨ (2 ^ 63 ≤ u.toNat ∧ toInt64 u < 0) := by
  have := u.toNat_lt_size
  unfold toInt64
  split_ifs with h
  · exact Or.inl rfl
  · exact Or.inr ⟨by omega, by unfold UInt64.size at this; omega⟩

theorem readPayloadLen_eq_ok {len : UInt8} {input rest : Bytes} {L : Int}
    (h : readPayloadLen len input = .ok (L, rest)) :
    ∃ ext, input = ext ++ rest ∧ ext.length = extLengthSize len ∧
      (L = lengthField len input ∨ (2 ^ 63 ≤ lengthField len input ∧ L < 0)) := by
  unfold readPayloadLen at h
  split_ifs at h with h126 h127
  · cases hr : readFull 2 input with
    | error e => rw [hr] at h; cases h
    | ok r =>
        rw [hr, except_map_ok] at h
        cases h
        obtain ⟨hin, hlen⟩ := readFull_eq_ok.mp hr
        refine ⟨r.1, hin, by rw [hlen, extLengthSize, if_pos h126], Or.inl ?_⟩
        rw [lengthField, if_pos h126, hin, uint16_append hlen]
  · cases hr : readFull 8 input with
    | error e => rw [hr] at h; cases h
    | ok r =>
        rw [hr, except_map_ok] at h
        cases h
        obtain ⟨hin, hlen⟩ := readFull_eq_ok.mp hr
        refine ⟨r.1, hin, by rw [hlen, extLengthSize, if_neg h126, if_pos h127], ?_⟩
        rw [lengthField, if_neg h126, if_pos h127, hin, uint64_append hlen]
        exact toInt64_cases _
  · cases h
    exact ⟨[], rfl, by rw [extLengthSize, if_neg h126, if_neg h127]; rfl,
      Or.inl (by rw [lengthField, if_neg h126, if_neg h127])⟩

theorem readMaskingKey_eq_ok {masked : Bool} {input key rest : Bytes}
    (h : readMaskingKey masked input = .ok (key, rest)) :
    input = key ++ rest ∧ key.length = if masked = true then 4 else 0 := by
  unfold readMaskingKey at h
  split_ifs at h with hm
  · rw [if_pos hm]; exact readFull_eq_ok.mp h
  · cases h; rw [if_neg hm]; exact ⟨rfl, rfl⟩

theorem readPayload_eq_ok {payloadLen : Int} {input payload rest : Bytes}
    (h : readPayload payloadLen input = .ok (payload, rest)) :
    input = payload ++ rest ∧ payload.length = payloadLen.toNat := by
  unfold readPayload at h
  split_ifs at h with hp
  · exact readFull_eq_ok.mp h
  · cases h; exact ⟨rfl, by simp; omega⟩

@[simp] theorem length_unmask (maskingKey : Bytes) (i : Nat) (payload : Bytes) :
    (unmask maskingKey i payload).length = payload.length := by
  induction payload generalizing i with
  | nil => rfl
  | cons b bs ih => simp [unmask, ih]

theorem readFrame_consumes {c : Conn} {f : Frame} {c' : Conn} (h : c.readFrame = .ok (f, c')) :
    c' = { c with input := c'.input } ∧
    ∃ pre, c.input = pre ++ c'.input ∧ pre.length = headerLength c.input + f.payload.length ∧
      ((f.payload.length = declaredLength c.input ∧ (declaredLength c.input : Int) ≤ c.maxMessageSize) ∨
        (2 ^ 63 ≤ declaredLength c.input ∧ f.payload = [])) := by
  rw [Conn.readFrame] at h
  obtain ⟨⟨header, r1⟩, hhead, h⟩ := except_bind_eq_ok.mp h
  obtain ⟨hin, hlen2⟩ := readFull_eq_ok.mp hhead
  obtain ⟨h0, h1, rfl⟩ : ∃ h0 h1, header = [h0, h1] := by
    match header, hlen2 with
    | [a, b], _ => exact ⟨a, b, rfl⟩
  obtain ⟨⟨L, r2⟩, hL, h⟩ := except_bind_eq_ok.mp h
  dsimp only at h
  split at h
  · cases h
  rename_i hmaxL
  obtain ⟨⟨key, r3⟩, hkey, h⟩ := except_bind_eq_ok.mp h
  obtain ⟨⟨payload, r4⟩, hpay, h⟩ := except_bind_eq_ok.mp h
  cases h
  simp only [List.getD_cons_succ, List.getD_cons_zero] at hL hkey ⊢
  dsimp only at hpay
  obtain ⟨ext, hr1, hext, hdecl⟩ := readPayloadLen_eq_ok hL
  obtain ⟨hr2, hkeylen⟩ := readMaskingKey_eq_ok hkey
  obtain ⟨hr3, hpaylen⟩ := readPayload_eq_ok hpay
  have hinput : c.input = h0 :: h1 :: r1 := hin
  have hdeclared : declaredLength c.input = lengthField (h1 &&& 0x7F) r1 := by rw [hinput]; rfl
  have hheader : headerLength c.input = 2 + ext.length + key.length := by
    rw [hinput, hext, hkeylen]; rfl
  have hf : (if (h1 &&& 0x80 != 0) = true then unmask key 0 payload else payload).length = payload.length := by
    split_ifs <;> simp
  refine ⟨trivial, [h0, h1] ++ ext ++ key ++ payload, by rw [hinput, hr1, hr2, hr3]; simp, ?_, ?_⟩
  · rw [hf, hheader]; simp only [List.length_append]; rfl
  · rw [hdeclared, hf]
    rcases hdecl with hD | ⟨hD, hneg⟩
    · left; omega
    · obtain rfl : payload = [] := List.eq_nil_of_length_eq_zero (by omega)
      exact Or.inr ⟨hD, by split_ifs <;> rfl⟩

/-- A 64-bit length field with its top bit set: `int64` makes it negative, which passes the size
check, so no payload is read and the header alone is consumed. -/
theorem readFrame_top_bit_length (c : Conn) (hmax : 0 ≤ c.maxMessageSize) (h0 : UInt8) {ext : Bytes}
    (hext : ext.length = 8) (htop : 2 ^ 63 ≤ (uint64 ext).toNat) (rest : Bytes) :
    { c with input := h0 :: 127 :: (ext ++ rest) }.readFrame =
      .ok (⟨h0 &&& 0x80 != 0, h0 &&& 0x0F, false, []⟩, { c with input := rest }) := by
  have hneg : toInt64 (uint64 ext) < 0 := by
    have := (uint64 ext).toNat_lt_size
    unfold toInt64 UInt64.size at *
    rw [if_neg (by omega)]
    omega
  have hlen : readPayloadLen (127 &&& 0x7F) (ext ++ rest) = .ok (toInt64 (uint64 ext), rest) := by
    rw [show (127 : UInt8) &&& 0x7F = 127 by decide, readPayloadLen, if_neg (by decide), if_pos rfl,
      readFull_append rest hext]
    rfl
  have hbody : readPayload (toInt64 (uint64 ext)) rest = .ok ([], rest) := by
    rw [readPayload, if_neg (by omega)]
  exact readFrame_unmasked c h0 127 (by decide) hlen (by omega) hbody

theorem declaredLength_top_bit (h0 : UInt8) {ext : Bytes} (hext : ext.length = 8) (rest : Bytes) :
    declaredLength (h0 :: 127 :: (ext ++ rest)) = (uint64 ext).toNat := by
  rw [declaredLength, List.getD_cons_succ, List.getD_cons_zero, show (127 : UInt8) &&& 0x7F = 127 by decide,
    lengthField, if_neg (by decide), if_pos rfl, List.drop_succ_cons, List.drop_succ_cons, List.drop_zero,
    uint64_append hext]

/-- `readFrame` on every byte stream: a successful read consumes the header and the payload it
returns, and that payload has the declared length within the limit, except when the 64-bit
length field has its top bit set. Then, for every limit of `0` or more, the frame is accepted
with an empty payload, although the declared length exceeds the limit, and the bytes after the
header are left to be read as the next frame. -/
theorem readFrame_accepts_top_bit_length :
    (∀ (c : Conn) (f : Frame) (c' : Conn), c.readFrame = .ok (f, c') →
      c' = { c with input := c'.input } ∧
      ∃ pre, c.input = pre ++ c'.input ∧ pre.length = headerLength c.input + f.payload.length ∧
        ((f.payload.length = declaredLength c.input ∧ (declaredLength c.input : Int) ≤ c.maxMessageSize) ∨
          (2 ^ 63 ≤ declaredLength c.input ∧ f.payload = []))) ∧
    (∀ (c : Conn) (h0 : UInt8) (ext rest : Bytes), 0 ≤ c.maxMessageSize → c.maxMessageSize < 2 ^ 63 →
      ext.length = 8 → 2 ^ 63 ≤ (uint64 ext).toNat →
      { c with input := h0 :: 127 :: (ext ++ rest) }.readFrame =
        .ok (⟨h0 &&& 0x80 != 0, h0 &&& 0x0F, false, []⟩, { c with input := rest }) ∧
      c.maxMessageSize < declaredLength (h0 :: 127 :: (ext ++ rest))) ∧
    (newConn ([0x82, 0x7F, 0x80, 0, 0, 0, 0, 0, 0, 0] ++ lit "hi")).readFrame =
      .ok (⟨true, opBinary, false, []⟩, newConn (lit "hi")) :=
  ⟨fun _ _ _ h => readFrame_consumes h,
    fun c h0 _ rest hmin hmax hext htop => ⟨readFrame_top_bit_length c hmin h0 hext htop rest,
      by rw [declaredLength_top_bit h0 hext]; omega⟩,
    by decide⟩

end Decoder

section Reassembly

/-- What `ReadMessage` keeps from frame to frame: `message.OpCode` and `fragments`. -/
structure Partial where
  opCode : UInt8
  fragments : List Bytes
  deriving DecidableEq, Repr

/-- Where the switch of `ReadMessage` goes with a frame. -/
inductive Next
  | message (m : Message)
  | next (p : Partial)
  | pong (payload : Bytes) (p : Partial)
  | close
  | error (e : String)
  deriving DecidableEq, Repr

/-- The switch of `ReadMessage` on `frame.OpCode`. -/
def Partial.step (p : Partial) (frame : Frame) : Next :=
  if frame.opCode = opText ∨ frame.opCode = opBinary then
    if frame.fin then .message ⟨frame.opCode, frame.payload⟩
    else .next ⟨frame.opCode, p.fragments ++ [frame.payload]⟩
  else if frame.opCode = opContinuation then
    if frame.fin then .message ⟨p.opCode, (p.fragments ++ [frame.payload]).flatten⟩
    else .next ⟨p.opCode, p.fragments ++ [frame.payload]⟩
  else if frame.opCode = opPing then .pong frame.payload p
  else if frame.opCode = opPong then .next p
  else if frame.opCode = opClose then .close
  else .error ("unknown opcode: " ++ toString frame.opCode.toNat)

theorem readFrame_input_lt {c : Conn} {frame : Frame} {c' : Conn} (h : c.readFrame = .ok (frame, c')) :
    c'.input.length < c.input.length := by
  obtain ⟨_, pre, hin, hpre, _⟩ := readFrame_consumes h
  rw [hin, List.length_append, hpre, headerLength]
  omega

theorem writeFrame_input {c c' : Conn} {frame : Frame} (h : c.writeFrame frame = .ok c') : c'.input = c.input := by
  unfold Conn.writeFrame at h
  split_ifs at h
  cases h
  rfl

/-- The loop of `ReadMessage` from `p`. On a Close frame it calls `Close` and returns `io.EOF`;
the closed connection is not returned. -/
def Conn.readMessageLoop (c : Conn) (p : Partial) : Except String (Message × Conn) :=
  match h : c.readFrame with
  | .error e => .error e
  | .ok (frame, c') =>
      match p.step frame with
      | .message m => .ok (m, c')
      | .next p => c'.readMessageLoop p
      | .pong payload p =>
          match hw : c'.writeFrame ⟨true, opPong, false, payload⟩ with
          | .error e => .error e
          | .ok c'' => c''.readMessageLoop p
      | .close => .error "EOF"
      | .error e => .error e
termination_by c.input.length
decreasing_by
  all_goals simp_wf
  · exact readFrame_input_lt h
  · rw [writeFrame_input hw]; exact readFrame_input_lt h

/-- `ReadMessage`. -/
def Conn.readMessage (c : Conn) : Except String (Message × Conn) :=
  if c.closed then .error "EOF" else c.readMessageLoop ⟨0, []⟩

theorem readMessageLoop_message {c c' : Conn} {p : Partial} {frame : Frame} {m : Message}
    (h : c.readFrame = .ok (frame, c')) (hs : p.step frame = .message m) :
    c.readMessageLoop p = .ok (m, c') := by
  rw [Conn.readMessageLoop]
  split
  · simp_all
  · rename_i heq
    rw [h] at heq
    cases heq
    rw [hs]

theorem readMessageLoop_next {c c' : Conn} {p p' : Partial} {frame : Frame}
    (h : c.readFrame = .ok (frame, c')) (hs : p.step frame = .next p') :
    c.readMessageLoop p = c'.readMessageLoop p' := by
  rw [Conn.readMessageLoop]
  split
  · simp_all
  · rename_i heq
    rw [h] at heq
    cases heq
    rw [hs]

theorem readMessageLoop_pong {c c' : Conn} {p p' : Partial} {frame : Frame} {payload : Bytes}
    (h : c.readFrame = .ok (frame, c')) (hs : p.step frame = .pong payload p') (hopen : c'.closed = false) :
    c.readMessageLoop p =
      { c' with output := c'.output ++ frameBytes ⟨true, opPong, false, payload⟩ }.readMessageLoop p' := by
  rw [Conn.readMessageLoop]
  split
  · simp_all
  · rename_i heq
    rw [h] at heq
    cases heq
    rw [hs]
    dsimp only
    split
    · simp_all [writeFrame_of_open hopen]
    · rename_i hw
      rw [writeFrame_of_open hopen] at hw
      cases hw
      rfl

/-- The frames one `ReadMessage` call reads, through its switch from `p`: the message it returns
and the frames after it; `none` when the frames end first, or one closes the connection or has
an unknown opcode. -/
def Partial.collect (p : Partial) : List Frame → Option (Message × List Frame)
  | [] => none
  | frame :: frames =>
      match p.step frame with
      | .message m => some (m, frames)
      | .next p => p.collect frames
      | .pong _ p => p.collect frames
      | .close => none
      | .error _ => none

@[simp] theorem step_unmasked (p : Partial) (frame : Frame) :
    p.step { frame with masked := false } = p.step frame := rfl

theorem readMessageLoop_frameBytes (c : Conn) (hopen : c.closed = false) (hmax : c.maxMessageSize < 2 ^ 63)
    (frames : List Frame) (hfs : ∀ f ∈ frames, f.opCode ≤ 0x0F ∧ (f.payload.length : Int) ≤ c.maxMessageSize)
    (p : Partial) {m : Message} {after : List Frame} (hcol : p.collect frames = some (m, after)) (rest : Bytes) :
    ∃ out, { c with input := frames.flatMap frameBytes ++ rest }.readMessageLoop p =
      .ok (m, { c with input := after.flatMap frameBytes ++ rest, output := c.output ++ out }) := by
  induction frames generalizing c p with
  | nil => cases hcol
  | cons f fs ih =>
      have hf := hfs f (List.mem_cons_self f fs)
      have hfs' : ∀ g ∈ fs, g.opCode ≤ 0x0F ∧ (g.payload.length : Int) ≤ c.maxMessageSize :=
        fun g hg => hfs g (List.mem_cons_of_mem f hg)
      have hread := readFrame_frameBytes c hmax f hf.1 hf.2 (fs.flatMap frameBytes ++ rest)
      rw [List.flatMap_cons, List.append_assoc]
      unfold Partial.collect at hcol
      split at hcol
      · rename_i m' hs
        cases hcol
        exact ⟨[], by rw [readMessageLoop_message hread (by rw [step_unmasked, hs]), List.append_nil]⟩
      · rename_i p' hs
        obtain ⟨out, hout⟩ := ih c hopen hmax hfs' p' hcol
        exact ⟨out, by rw [readMessageLoop_next hread (by rw [step_unmasked, hs]), hout]⟩
      · rename_i payload p' hs
        let c₁ := { c with output := c.output ++ frameBytes ⟨true, opPong, false, payload⟩ }
        obtain ⟨out, hout⟩ := ih c₁ hopen hmax hfs' p' hcol
        refine ⟨frameBytes ⟨true, opPong, false, payload⟩ ++ out, ?_⟩
        rw [readMessageLoop_pong hread (by rw [step_unmasked, hs]) hopen]
        simpa [c₁] using hout
      · cases hcol
      · cases hcol

/-- Whether a frame carries message data: Text, Binary or Continuation. -/
def Frame.isData (f : Frame) : Bool := f.opCode == opText || f.opCode == opBinary || f.opCode == opContinuation

/-- The payloads of the data frames among `frames`, in order. -/
def dataPayloads (frames : List Frame) : List Bytes := (frames.filter Frame.isData).map Frame.payload

theorem collect_payload {p : Partial} {frames : List Frame} {m : Message} {after : List Frame}
    (h : p.collect frames = some (m, after)) :
    ∃ read last, frames = read ++ last :: after ∧
      m.payload = if last.opCode = opContinuation then (p.fragments ++ dataPayloads (read ++ [last])).flatten
        else last.payload := by
  induction frames generalizing p with
  | nil => cases h
  | cons f fs ih =>
      unfold Partial.collect Partial.step at h
      split_ifs at h with hdata hfin hcont hfin' hping hpong hclose
      · cases h
        refine ⟨[], f, rfl, ?_⟩
        rw [if_neg (by rcases hdata with h | h <;> rw [h] <;> decide)]
      · obtain ⟨read, last, hfs, hm⟩ := ih h
        refine ⟨f :: read, last, by rw [hfs]; rfl, ?_⟩
        have hd : f.isData = true := by rcases hdata with h | h <;> simp [Frame.isData, h]
        rw [hm]
        simp [dataPayloads, hd]
      · cases h
        refine ⟨[], f, rfl, ?_⟩
        rw [if_pos hcont]
        simp [dataPayloads, Frame.isData, hcont]
      · obtain ⟨read, last, hfs, hm⟩ := ih h
        refine ⟨f :: read, last, by rw [hfs]; rfl, ?_⟩
        rw [hm]
        simp [dataPayloads, Frame.isData, hcont]
      · obtain ⟨read, last, hfs, hm⟩ := ih h
        refine ⟨f :: read, last, by rw [hfs]; rfl, ?_⟩
        have hd : f.isData = false := by simp [Frame.isData, hping, opPing, opText, opBinary, opContinuation]
        rw [hm]
        simp [dataPayloads, hd]
      · obtain ⟨read, last, hfs, hm⟩ := ih h
        refine ⟨f :: read, last, by rw [hfs]; rfl, ?_⟩
        have hd : f.isData = false := by simp [Frame.isData, hpong, opPong, opText, opBinary, opContinuation]
        rw [hm]
        simp [dataPayloads, hd]

theorem readMessage_frameBytes (c : Conn) (hopen : c.closed = false) (hmax : c.maxMessageSize < 2 ^ 63)
    (frames : List Frame) (hfs : ∀ f ∈ frames, f.opCode ≤ 0x0F ∧ (f.payload.length : Int) ≤ c.maxMessageSize)
    {m : Message} {after : List Frame} (hcol : Partial.collect ⟨0, []⟩ frames = some (m, after)) (rest : Bytes) :
    ∃ out, { c with input := frames.flatMap frameBytes ++ rest }.readMessage =
      .ok (m, { c with input := after.flatMap frameBytes ++ rest, output := c.output ++ out }) := by
  rw [Conn.readMessage, if_neg (by simp [hopen])]
  exact readMessageLoop_frameBytes c hopen hmax frames hfs _ hcol rest

theorem readMessage_text_continuation (a b : Bytes) (ha : (a.length : Int) ≤ 2 ^ 20) (hb : (b.length : Int) ≤ 2 ^ 20) :
    ∃ c', (newConn ([⟨false, opText, false, a⟩, ⟨true, opContinuation, false, b⟩].flatMap frameBytes)).readMessage =
      .ok (⟨opText, a ++ b⟩, c') ∧ c'.maxMessageSize = 2 ^ 20 := by
  have hcol : Partial.collect ⟨0, []⟩ [⟨false, opText, false, a⟩, ⟨true, opContinuation, false, b⟩] =
      some (⟨opText, (([] ++ [a]) ++ [b]).flatten⟩, []) := rfl
  simp only [List.nil_append, List.singleton_append, List.flatten_cons, List.flatten_nil, List.append_nil] at hcol
  obtain ⟨out, h⟩ := readMessage_frameBytes (newConn []) rfl (by decide) _
    (by simp only [List.mem_cons, List.mem_singleton, List.not_mem_nil, or_false, forall_eq_or_imp, forall_eq]
        exact ⟨⟨by decide, ha⟩, by decide, hb⟩) hcol []
  rw [List.append_nil] at h
  exact ⟨_, h, rfl⟩

/-- Two fragments of 1 MiB each: the size check is made per frame only, so `ReadMessage` returns
2 MiB on a connection whose limit is 1 MiB. -/
theorem readMessage_two_fragments :
    ∃ c', (newConn ([⟨false, opText, false, List.replicate (2 ^ 20) 1⟩,
        ⟨true, opContinuation, false, List.replicate (2 ^ 20) 1⟩].flatMap frameBytes)).readMessage =
      .ok (⟨opText, List.replicate (2 ^ 20) 1 ++ List.replicate (2 ^ 20) 1⟩, c') ∧
      c'.maxMessageSize < (List.replicate (2 ^ 20) (1 : UInt8) ++ List.replicate (2 ^ 20) 1).length := by
  have hlen : ((List.replicate (2 ^ 20) (1 : UInt8)).length : Int) = 2 ^ 20 := by
    rw [List.length_replicate]; omega
  obtain ⟨c', h, hmax⟩ := readMessage_text_continuation (List.replicate (2 ^ 20) 1) (List.replicate (2 ^ 20) 1)
    (Int.le_of_eq hlen) (Int.le_of_eq hlen)
  exact ⟨c', h, by rw [hmax, List.length_append]; omega⟩

/-- A Text frame that opens a message, then a final Text frame: `ReadMessage` returns the second
payload only. -/
theorem readMessage_restarted_text :
    ∃ c', (newConn ([⟨false, opText, false, lit "a"⟩, ⟨true, opText, false, lit "b"⟩].flatMap frameBytes)).readMessage =
      .ok (⟨opText, lit "b"⟩, c') := by
  obtain ⟨out, h⟩ := readMessage_frameBytes (newConn []) rfl (by decide)
    [⟨false, opText, false, lit "a"⟩, ⟨true, opText, false, lit "b"⟩] (by decide)
    (show Partial.collect ⟨0, []⟩ _ = some (⟨opText, lit "b"⟩, []) from rfl) []
  rw [List.append_nil] at h
  exact ⟨_, h⟩

/-- `ReadMessage` over every stream of frames that ends a message: it returns the fragments joined
only when the message ends with a Continuation frame. A final Text or Binary frame discards the
fragments an earlier Text or Binary frame opened, and the joined payload is never checked
against `maxMessageSize`: two fragments of 1 MiB give 2 MiB on a new connection. -/
theorem readMessage_drops_fragments_and_exceeds_limit :
    (∀ (c : Conn) (frames : List Frame) (m : Message) (after : List Frame) (rest : Bytes),
      c.closed = false → c.maxMessageSize < 2 ^ 63 →
      (∀ f ∈ frames, f.opCode ≤ 0x0F ∧ (f.payload.length : Int) ≤ c.maxMessageSize) →
      Partial.collect ⟨0, []⟩ frames = some (m, after) →
      ∃ read last c', frames = read ++ last :: after ∧
        { c with input := frames.flatMap frameBytes ++ rest }.readMessage = .ok (m, c') ∧
        c'.input = after.flatMap frameBytes ++ rest ∧
        m.payload = if last.opCode = opContinuation then (dataPayloads (read ++ [last])).flatten
          else last.payload) ∧
    (∃ c', (newConn ([⟨false, opText, false, List.replicate (2 ^ 20) 1⟩,
        ⟨true, opContinuation, false, List.replicate (2 ^ 20) 1⟩].flatMap frameBytes)).readMessage =
      .ok (⟨opText, List.replicate (2 ^ 20) 1 ++ List.replicate (2 ^ 20) 1⟩, c') ∧
      c'.maxMessageSize < (List.replicate (2 ^ 20) (1 : UInt8) ++ List.replicate (2 ^ 20) 1).length) ∧
    (∃ c', (newConn ([⟨false, opText, false, lit "a"⟩, ⟨true, opText, false, lit "b"⟩].flatMap frameBytes)).readMessage =
      .ok (⟨opText, lit "b"⟩, c')) := by
  refine ⟨fun c frames m after rest hopen hmax hfs hcol => ?_, readMessage_two_fragments, readMessage_restarted_text⟩
  obtain ⟨read, last, hframes, hm⟩ := collect_payload hcol
  obtain ⟨out, h⟩ := readMessage_frameBytes c hopen hmax frames hfs hcol rest
  exact ⟨read, last, _, hframes, h, rfl, by simpa using hm⟩

end Reassembly

end FastServer.Websocket
