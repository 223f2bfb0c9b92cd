import FastServer.Basic

namespace FastServer.Protocol

/-- The RPC `Frame`: a 16-byte header, then metadata, then payload. -/
structure Frame where
  magic : UInt32
  version : UInt8
  type : UInt8
  flags : UInt8
  reserved : UInt8
  requestID : UInt32
  metadata : Bytes
  payload : Bytes
  deriving DecidableEq, Repr

/-- `Magic`, "RPC\0". -/
def magic : UInt32 := 0x52504300

/-- `Version`. -/
def version : UInt8 := 1

def headerSize : Nat := 16

/-- `TypeRequest`, the unary request. -/
def typeRequest : UInt8 := 0x01

/-- `TypeResponse`, the unary response. -/
def typeResponse : UInt8 := 0x02

/-- `TypeError`, the error response. -/
def typeError : UInt8 := 0x06

/-- `TypePing`, the keepalive ping. -/
def typePing : UInt8 := 0x07

/-- `TypePong`, the keepalive pong. -/
def typePong : UInt8 := 0x08

/-- `NewFrame(typ, requestID)`: flags, reserved byte, metadata and payload all zero. -/
def newFrame (typ : UInt8) (requestID : UInt32) : Frame :=
  ⟨magic, version, typ, 0, 0, requestID, [], []⟩

/-- The errors of `DecodeHeader`, `Decode` and `GetFrameSize`. -/
inductive DecodeError
  | bufferTooSmall (need got : Nat)
  | invalidMagic
  | invalidVersion
  | headerTooSmall
  deriving DecidableEq, Repr

/-- `binary.BigEndian.PutUint32`: `byte(v >> 24)`, `byte(v >> 16)`, `byte(v >> 8)`, `byte(v)`. -/
def putUint32 (v : UInt32) : Bytes :=
  [UInt8.ofNat (v.toNat / 2 ^ 24), UInt8.ofNat (v.toNat / 2 ^ 16), UInt8.ofNat (v.toNat / 2 ^ 8),
    UInt8.ofNat v.toNat]

/-- `binary.BigEndian.PutUint16`. -/
def putUint16 (v : UInt16) : Bytes := [UInt8.ofNat (v.toNat / 2 ^ 8), UInt8.ofNat v.toNat]

/-- `binary.BigEndian.Uint32` of the first four bytes (every caller has checked the length). -/
def uint32 (b : Bytes) : UInt32 :=
  UInt32.ofNat ((b.getD 0 0).toNat * 2 ^ 24 + (b.getD 1 0).toNat * 2 ^ 16 +
    (b.getD 2 0).toNat * 2 ^ 8 + (b.getD 3 0).toNat)

/-- `binary.BigEndian.Uint16` of the first two bytes. -/
def uint16 (b : Bytes) : UInt16 := UInt16.ofNat ((b.getD 0 0).toNat * 2 ^ 8 + (b.getD 1 0).toNat)

/-- The 16 header bytes `Encode` writes; the two lengths go through `uint16(…)`. -/
def Frame.header (f : Frame) : Bytes :=
  putUint32 f.magic ++ [f.version, f.type, f.flags, f.reserved] ++ putUint32 f.requestID ++
    putUint16 (UInt16.ofNat f.metadata.length) ++ putUint16 (UInt16.ofNat f.payload.length)

/-- `Frame.Encode`: the buffer of length `16 + len(Metadata) + len(Payload)`. -/
def Frame.encode (f : Frame) : Bytes := f.header ++ f.metadata ++ f.payload

def decodeHeader (buf : Bytes) : Except DecodeError Frame :=
  if buf.length < headerSize then .error (.bufferTooSmall headerSize buf.length)
  else
    let frame : Frame := ⟨uint32 buf, buf.getD 4 0, buf.getD 5 0, buf.getD 6 0, buf.getD 7 0,
      uint32 (buf.drop 8), [], []⟩
    if frame.magic ≠ magic then .error .invalidMagic
    else if frame.version ≠ version then .error .invalidVersion
    else .ok frame

def decode (buf : Bytes) : Except DecodeError Frame :=
  if buf.length < headerSize then .error (.bufferTooSmall headerSize buf.length)
  else do
    let frame ← decodeHeader buf
    let metaLen := (uint16 (buf.drop 12)).toNat
    let payloadLen := (uint16 (buf.drop 14)).toNat
    if buf.length < headerSize + metaLen + payloadLen then
      .error (.bufferTooSmall (headerSize + metaLen + payloadLen) buf.length)
    else
      .ok { frame with metadata := (buf.drop headerSize).take metaLen,
                       payload := (buf.drop (headerSize + metaLen)).take payloadLen }

def getFrameSize (headerBuf : Bytes) : Except DecodeError Nat :=
  if headerBuf.length < headerSize then .error .headerTooSmall
  else .ok (headerSize + (uint16 (headerBuf.drop 12)).toNat + (uint16 (headerBuf.drop 14)).toNat)

/-- The frame loop of `Server.handleConn` (and `Client.receive`) over the bytes of a stream:
`io.ReadFull` of a 16-byte header, `DecodeHeader`, `GetFrameSize`, `io.ReadFull` of the rest of
the frame, `Decode`. It stops at the first round that fails and gives back the frames read and
the bytes from the start of that round; `fuel` bounds the rounds. -/
def readFrames : Nat → Bytes → List Frame × Bytes
  | 0, stream => ([], stream)
  | fuel + 1, stream =>
      if stream.length < headerSize then ([], stream)
      else
        match decodeHeader (stream.take headerSize), getFrameSize (stream.take headerSize) with
        | .ok _, .ok frameSize =>
            if stream.length < frameSize then ([], stream)
            else
              match decode (stream.take frameSize) with
              | .ok frame => (frame :: (readFrames fuel (stream.drop frameSize)).1,
                  (readFrames fuel (stream.drop frameSize)).2)
              | .error _ => ([], stream)
        | _, _ => ([], stream)

/-- The whole stream read by the loop: every round consumes at least 16 bytes. -/
def streamFrames (stream : Bytes) : List Frame × Bytes := readFrames stream.length stream

theorem toNat_byte (n : Nat) : (UInt8.ofNat n).toNat = n % 256 := by
  simp [UInt8.ofNat, UInt8.toNat, BitVec.toNat_ofNat]

theorem uint32_putUint32 (v : UInt32) (t : Bytes) : uint32 (putUint32 v ++ t) = v := by
  apply UInt32.toNat.inj
  have hv : v.toNat < 2 ^ 32 := v.toNat_lt_size
  have hbytes : v.toNat / 2 ^ 24 % 256 * 2 ^ 24 + v.toNat / 2 ^ 16 % 256 * 2 ^ 16 +
      v.toNat / 2 ^ 8 % 256 * 2 ^ 8 + v.toNat % 256 = v.toNat := by omega
  simp only [uint32, putUint32, List.cons_append, List.getD_cons_zero, List.getD_cons_succ, toNat_byte, hbytes]
  exact UInt32.toNat_ofNat_of_lt hv

theorem uint16_putUint16 (v : UInt16) (t : Bytes) : uint16 (putUint16 v ++ t) = v := by
  apply UInt16.toNat.inj
  have hv : v.toNat < 2 ^ 16 := v.toNat_lt_size
  have hbytes : v.toNat / 2 ^ 8 % 256 * 2 ^ 8 + v.toNat % 256 = v.toNat := by omega
  simp only [uint16, putUint16, List.cons_append, List.getD_cons_zero, List.getD_cons_succ, toNat_byte, hbytes]
  exact UInt16.toNat_ofNat_of_lt hv

theorem toNat_uint16_length {l : Bytes} (h : l.length < 2 ^ 16) : (UInt16.ofNat l.length).toNat = l.length :=
  UInt16.toNat_ofNat_of_lt h

@[simp] theorem header_length (f : Frame) : f.header.length = headerSize := by
  simp [Frame.header, putUint32, putUint16, headerSize]

/-- A frame with the right magic and version. -/
structure Frame.Valid (f : Frame) : Prop where
  magic_eq : f.magic = FastServer.Protocol.magic
  version_eq : f.version = FastServer.Protocol.version

theorem newFrame_valid (typ : UInt8) (requestID : UInt32) : (newFrame typ requestID).Valid :=
  ⟨rfl, rfl⟩

theorem header_append (f : Frame) (t : Bytes) :
    f.header ++ t = putUint32 f.magic ++ (f.version :: f.type :: f.flags :: f.reserved ::
      (putUint32 f.requestID ++ (putUint16 (UInt16.ofNat f.metadata.length) ++
        (putUint16 (UInt16.ofNat f.payload.length) ++ t)))) := by
  simp [Frame.header]

theorem decodeHeader_header {f : Frame} (hf : f.Valid) (t : Bytes) :
    decodeHeader (f.header ++ t) =
      .ok ⟨f.magic, f.version, f.type, f.flags, f.reserved, f.requestID, [], []⟩ := by
  have hm : uint32 (f.header ++ t) = f.magic := by rw [header_append, uint32_putUint32]
  have hr : uint32 ((f.header ++ t).drop 8) = f.requestID := by
    rw [header_append]
    exact uint32_putUint32 _ _
  have hb : [(f.header ++ t).getD 4 0, (f.header ++ t).getD 5 0, (f.header ++ t).getD 6 0,
      (f.header ++ t).getD 7 0] = [f.version, f.type, f.flags, f.reserved] := by
    rw [header_append]; rfl
  simp only [List.cons.injEq, and_true] at hb
  rw [decodeHeader, if_neg (by simp), hm, hr, hb.1, hb.2.1, hb.2.2.1, hb.2.2.2]
  simp [hf.magic_eq, hf.version_eq]

theorem lengths_header {f : Frame} (t : Bytes) :
    (uint16 ((f.header ++ t).drop 12)).toNat = (UInt16.ofNat f.metadata.length).toNat ∧
      (uint16 ((f.header ++ t).drop 14)).toNat = (UInt16.ofNat f.payload.length).toNat := by
  rw [header_append]
  exact ⟨congrArg _ (uint16_putUint16 _ _), congrArg _ (uint16_putUint16 _ _)⟩

/-- The lengths a frame's header carries, when they fit its two 16-bit fields. -/
structure Frame.Fits (f : Frame) : Prop where
  metadata_lt : f.metadata.length < 2 ^ 16
  payload_lt : f.payload.length < 2 ^ 16

theorem getFrameSize_header {f : Frame} (hfit : f.Fits) (t : Bytes) :
    getFrameSize (f.header ++ t) = .ok (headerSize + f.metadata.length + f.payload.length) := by
  obtain ⟨h12, h14⟩ := lengths_header (f := f) t
  rw [getFrameSize, if_neg (by simp), h12, h14, UInt16.toNat_ofNat_of_lt hfit.metadata_lt,
    UInt16.toNat_ofNat_of_lt hfit.payload_lt]

theorem decode_encode {f : Frame} (hf : f.Valid) (hfit : f.Fits) : decode f.encode = .ok f := by
  have hdec := decodeHeader_header hf (f.metadata ++ f.payload)
  obtain ⟨h12, h14⟩ := lengths_header (f := f) (f.metadata ++ f.payload)
  rw [UInt16.toNat_ofNat_of_lt hfit.metadata_lt] at h12
  rw [UInt16.toNat_ofNat_of_lt hfit.payload_lt] at h14
  have henc : f.encode = f.header ++ (f.metadata ++ f.payload) := List.append_assoc _ _ _
  rw [henc, decode, if_neg (by simp), hdec, except_ok_bind]
  simp only [h12, h14, List.length_append, header_length]
  rw [if_neg (by omega)]
  have hd : (f.header ++ (f.metadata ++ f.payload)).drop headerSize = f.metadata ++ f.payload :=
    List.drop_left' (header_length f)
  have hd' : (f.header ++ (f.metadata ++ f.payload)).drop (headerSize + f.metadata.length) = f.payload := by
    rw [← List.drop_drop, hd, List.drop_left]
  rw [hd, hd', List.take_left, List.take_of_length_le le_rfl]

theorem readFrames_encode {f : Frame} (hf : f.Valid) (hfit : f.Fits) (fuel : Nat) (t : Bytes) :
    readFrames (fuel + 1) (f.encode ++ t) = (f :: (readFrames fuel t).1, (readFrames fuel t).2) := by
  have hstream : f.encode ++ t = f.header ++ (f.metadata ++ f.payload ++ t) := by
    simp [Frame.encode]
  have htake : (f.encode ++ t).take headerSize = f.header ++ [] := by
    rw [hstream, List.append_nil]
    exact List.take_left' (header_length f)
  have hlen : (f.encode ++ t).length = headerSize + f.metadata.length + f.payload.length + t.length := by
    simp [Frame.encode]; omega
  have hframe : (f.encode ++ t).take (headerSize + f.metadata.length + f.payload.length) = f.encode :=
    List.take_left' (by simp [Frame.encode]; omega)
  have hrest : (f.encode ++ t).drop (headerSize + f.metadata.length + f.payload.length) = t :=
    List.drop_left' (by simp [Frame.encode]; omega)
  rw [readFrames, if_neg (by rw [hlen]; unfold headerSize; omega), htake, decodeHeader_header hf,
    getFrameSize_header hfit]
  simp only
  rw [if_neg (by omega), hframe, decode_encode hf hfit, hrest]

/-- Frames that fit their headers, encoded one after the other, are read back in order by the
frame loop, which then finds the stream exhausted. -/
theorem readFrames_flatMap_encode (fs : List Frame) (hfs : ∀ f ∈ fs, f.Valid ∧ f.Fits) (fuel : Nat)
    (hfuel : (fs.flatMap Frame.encode).length ≤ fuel) :
    readFrames fuel (fs.flatMap Frame.encode) = (fs, []) := by
  induction fs generalizing fuel with
  | nil => cases fuel <;> simp [readFrames, headerSize]
  | cons f fs ih =>
      obtain ⟨hf, hfit⟩ := hfs f (List.mem_cons_self f fs)
      have hlen : (f.encode ++ fs.flatMap Frame.encode).length ≤ fuel := by simpa using hfuel
      obtain ⟨fuel, rfl⟩ : ∃ n, fuel = n + 1 :=
        Nat.exists_eq_succ_of_ne_zero (by simp [Frame.encode, headerSize] at hlen; omega)
      rw [List.flatMap_cons, readFrames_encode hf hfit,
        ih (fun g hg => hfs g (List.mem_cons_of_mem f hg)) fuel (by simp [Frame.encode, headerSize] at hlen ⊢; omega)]

/-- The stream loop of `Server.handleConn` reads back exactly the frames encoded into it, in
order, with nothing left over, when every frame has the protocol's magic and version and its
metadata and payload are each shorter than 65536 bytes. -/
theorem streamFrames_encode (fs : List Frame) (hfs : ∀ f ∈ fs, f.Valid ∧ f.Fits) :
    streamFrames (fs.flatMap Frame.encode) = (fs, []) :=
  readFrames_flatMap_encode fs hfs _ le_rfl

theorem streamFrames_encode_test_frame :
    (∀ f ∈ [{ newFrame typeRequest 12345 with
        metadata := lit "test metadata", payload := lit "test payload" }], f.Valid ∧ f.Fits) ∧
      streamFrames ([{ newFrame typeRequest 12345 with
          metadata := lit "test metadata", payload := lit "test payload" }].flatMap Frame.encode) =
        ([{ newFrame typeRequest 12345 with
          metadata := lit "test metadata", payload := lit "test payload" }], []) := by
  have h : ∀ f ∈ [{ newFrame typeRequest 12345 with
      metadata := lit "test metadata", payload := lit "test payload" }], f.Valid ∧ f.Fits := by
    simp only [List.mem_singleton, forall_eq]
    exact ⟨⟨rfl, rfl⟩, by decide, by decide⟩
  exact ⟨h, streamFrames_encode _ h⟩

/-- `Encode` keeps only the low 16 bits of each length: a frame with 65536 bytes of metadata is
read back as a frame with none, and its metadata is left in the stream, where the next round
rejects it as a header with the wrong magic. -/
theorem streamFrames_truncates_long_metadata :
    streamFrames (Frame.encode ⟨magic, version, 0, 0, 0, 0, List.replicate 65536 0, []⟩) =
      ([⟨magic, version, 0, 0, 0, 0, [], []⟩], List.replicate 65536 0) := by
  have hfit : (⟨magic, version, 0, 0, 0, 0, [], []⟩ : Frame).Fits := ⟨by decide, by decide⟩
  have henc : Frame.encode ⟨magic, version, 0, 0, 0, 0, List.replicate 65536 0, []⟩ =
      Frame.encode ⟨magic, version, 0, 0, 0, 0, [], []⟩ ++ List.replicate 65536 0 := by
    simp only [Frame.encode, Frame.header, List.length_replicate, List.append_nil]
    rfl
  have hstop : ∀ fuel, 0 < fuel → readFrames fuel (List.replicate 65536 0) = ([], List.replicate 65536 0) := by
    intro fuel hfuel
    obtain ⟨fuel, rfl⟩ := Nat.exists_eq_succ_of_ne_zero hfuel.ne'
    rw [readFrames, if_neg (by rw [List.length_replicate]; decide), List.take_replicate]
    rfl
  rw [streamFrames, henc, List.length_append, List.length_replicate, readFrames_encode ⟨rfl, rfl⟩ hfit,
    hstop _ (by omega)]

end FastServer.Protocol