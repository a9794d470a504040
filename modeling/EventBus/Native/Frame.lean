import EventBus.ForStd.Codec
import EventBus.Native.Broker

/-!
# Frames

Model of `protocol/frame.go`: the length-delimited frames of the wire protocol. A
reader is the list of the bytes still to come. `writeFrame` yields the bytes that
`WriteFrame` hands to `writeFull`; that a write to the socket can fail is part of the
model of the connection. `Frame.writeTo` is `WriteFrame` with the loop of `writeFull`, for
an `io.Writer` that may accept fewer bytes than it is given.
-/

namespace EventBus

/-- `HeaderSize`. -/
def headerSize : Nat := 5

/-- `MaxPayloadSize`, that is `16 << 20`. -/
def maxPayloadSize : Nat := 16777216

/-- The errors of `ReadFrame` and `WriteFrame`. -/
inductive FrameErr where
  | eof
  | unexpectedEOF
  | tooLarge (size : Nat)
  | invalid
deriving DecidableEq, Repr

/-- `Type`. The named types are those below; any other non-zero byte is a type too. -/
abbrev FrameType := UInt8

def typeConnect : FrameType := 1
def typeSubscribe : FrameType := 2
def typePublish : FrameType := 3
def typeEvent : FrameType := 4
def typeAck : FrameType := 5
def typeUnsubscribe : FrameType := 6
def typePing : FrameType := 7
def typePong : FrameType := 8
def typeError : FrameType := 9
def typeShutdown : FrameType := 10

structure Frame where
  type : FrameType
  payload : Bytes
deriving DecidableEq, Repr

/-- `io.ReadFull` for `n` bytes: the bytes read and the input left. -/
def readFull (n : Nat) (r : Bytes) : Except FrameErr (Bytes × Bytes) :=
  if n ≤ r.length then .ok (r.take n, r.drop n)
  else if r = [] then .error .eof
  else .error .unexpectedEOF

/-- `ReadFrame`: the frame and the input left. -/
def readFrame (r : Bytes) : Except FrameErr (Frame × Bytes) :=
  match readFull headerSize r with
  | .error err => .error err
  | .ok (header, r) =>
    let payloadSize := BigEndian.get (header.take 4)
    let type := header.getD 4 0
    if payloadSize > maxPayloadSize then .error (.tooLarge payloadSize)
    else if type = 0 then .error .invalid
    else
      match readFull payloadSize r with
      | .error err => .error err
      | .ok (payload, r) => .ok (⟨type, payload⟩, r)

/-- The header of a frame. The length is written as a `uint32`. -/
def Frame.header (frame : Frame) : Bytes :=
  BigEndian.put 4 frame.payload.length ++ [frame.type]

/-- `WriteFrame`: the bytes it writes. -/
def writeFrame (frame : Frame) : Except FrameErr Bytes :=
  if frame.type = 0 then .error .invalid
  else if frame.payload.length > maxPayloadSize then .error (.tooLarge frame.payload.length)
  else .ok (frame.header ++ frame.payload)

/-! ## Writing to an io.Writer -/

/-- An `io.Writer` with states `σ`. `write s data` yields its next state, the number of bytes
    it has accepted from the front of `data`, and its error. -/
structure ByteWriter (σ : Type) where
  write : σ → Bytes → σ × Nat × Option Bytes
  /-- The contract of `io.Writer`. -/
  bound : ∀ s data, (write s data).2.1 ≤ data.length

inductive WriteErr where
  /-- `WriteFrame` rejects the frame. -/
  | frame (err : FrameErr)
  /-- The writer returns an error. -/
  | writer (text : Bytes)
  /-- `io.ErrShortWrite` -/
  | shortWrite
deriving DecidableEq, Repr

/-- The outcome of a write: the state of the writer, the bytes it has accepted and the error. -/
structure Written (σ : Type) where
  state : σ
  bytes : Bytes
  err : Option WriteErr

def writeFull {σ : Type} (w : ByteWriter σ) (s : σ) (data : Bytes) : Written σ :=
  if data = [] then ⟨s, [], none⟩
  else
    match w.write s data with
    | (s, n, some text) => ⟨s, data.take n, some (.writer text)⟩
    | (s, 0, none) => ⟨s, [], some .shortWrite⟩
    | (s, n + 1, none) =>
      let rest := writeFull w s (data.drop (n + 1))
      ⟨rest.state, data.take (n + 1) ++ rest.bytes, rest.err⟩
termination_by data.length
decreasing_by
  have : 0 < data.length := List.length_pos_iff.mpr ‹_›
  rw [List.length_drop]
  omega

/-- `WriteFrame`. -/
def Frame.writeTo {σ : Type} (frame : Frame) (w : ByteWriter σ) (s : σ) : Written σ :=
  if frame.type = 0 then ⟨s, [], some (.frame .invalid)⟩
  else if frame.payload.length > maxPayloadSize then
    ⟨s, [], some (.frame (.tooLarge frame.payload.length))⟩
  else
    let header := writeFull w s frame.header
    match header.err with
    | some _ => header
    | none =>
      let payload := writeFull w header.state frame.payload
      ⟨payload.state, header.bytes ++ payload.bytes, payload.err⟩

end EventBus
