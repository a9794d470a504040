import EventBus.Native.Frame

/-!
# Messages

Model of `transport/tcp/messages.go`: the payloads of the frames. A string is written
with its length in two bytes, a data field with its length in four.

Every decoder replaces the error of a failed read by `errInvalidPayload`, so that reads
return an option here.
-/

namespace EventBus

/-- The errors of the encoders and decoders. -/
inductive MsgErr where
  /-- `errInvalidPayload` -/
  | invalidPayload
  /-- `protocol.ErrFrameTooLarge` -/
  | frameTooLarge
deriving DecidableEq, Repr

/-- `err.Error()`. -/
def MsgErr.text : MsgErr → Bytes
  | .invalidPayload => ascii "invalid message payload"
  | .frameTooLarge => ascii "frame payload exceeds maximum size"

structure ConnectMessage where
  clientID : Bytes
deriving DecidableEq, Repr

structure TopicMessage where
  topic : Bytes
deriving DecidableEq, Repr

structure PublishMessage where
  id : Bytes
  idempotencyKey : Bytes
  topic : Bytes
  key : Bytes
  payload : Bytes
deriving DecidableEq, Repr

structure ErrorMessage where
  error : Bytes
deriving DecidableEq, Repr

structure ShutdownMessage where
  redirect : Bytes
deriving DecidableEq, Repr

structure AckMessage where
  id : Bytes
  status : UInt8
  error : Bytes
deriving DecidableEq, Repr

def ackPublished : UInt8 := 1
def ackDuplicate : UInt8 := 2
def ackRejected : UInt8 := 3
def ackDelivered : UInt8 := 4

/-! ## Fields -/

/-- The greatest length of a string, `^uint16(0)`. -/
def maxStringSize : Nat := 65535

def writeString (value : Bytes) : Except MsgErr Bytes :=
  if value.length > maxStringSize then .error .invalidPayload
  else .ok (BigEndian.put 2 value.length ++ value)

def readString (r : Bytes) : Option (Bytes × Bytes) :=
  match readFull 2 r with
  | .error _ => none
  | .ok (length, r) =>
    match readFull (BigEndian.get length) r with
    | .error _ => none
    | .ok (data, r) => some (data, r)

def writeBytes (data : Bytes) : Except MsgErr Bytes :=
  if data.length > maxPayloadSize then .error .frameTooLarge
  else .ok (BigEndian.put 4 data.length ++ data)

def readBytes (r : Bytes) : Option (Bytes × Bytes) :=
  match readFull 4 r with
  | .error _ => none
  | .ok (length, r) =>
    -- unlike `readString`, the length is checked: four bytes can exceed the limit
    if BigEndian.get length > maxPayloadSize then none
    else
      match readFull (BigEndian.get length) r with
      | .error _ => none
      | .ok (data, r) => some (data, r)

/-- `reader.ReadByte`. -/
def readByte : Bytes → Option (UInt8 × Bytes)
  | [] => none
  | b :: r => some (b, r)

/-! ## Messages -/

def encodeConnect (message : ConnectMessage) : Except MsgErr Bytes := writeString message.clientID

def decodeConnect (payload : Bytes) : Except MsgErr ConnectMessage :=
  match readString payload with
  | none => .error .invalidPayload
  | some (clientID, r) => if r.length ≠ 0 then .error .invalidPayload else .ok ⟨clientID⟩

def encodeTopic (message : TopicMessage) : Except MsgErr Bytes := writeString message.topic

def decodeTopic (payload : Bytes) : Except MsgErr TopicMessage :=
  match readString payload with
  | none => .error .invalidPayload
  | some (topic, r) => if r.length ≠ 0 then .error .invalidPayload else .ok ⟨topic⟩

def encodePublish (message : PublishMessage) : Except MsgErr Bytes := do
  let id ← writeString message.id
  let idempotencyKey ← writeString message.idempotencyKey
  let topic ← writeString message.topic
  let key ← writeString message.key
  let payload ← writeBytes message.payload
  return id ++ (idempotencyKey ++ (topic ++ (key ++ payload)))

def decodePublish (payload : Bytes) : Except MsgErr PublishMessage :=
  match readString payload with
  | none => .error .invalidPayload
  | some (id, r) =>
    match readString r with
    | none => .error .invalidPayload
    | some (idempotencyKey, r) =>
      match readString r with
      | none => .error .invalidPayload
      | some (topic, r) =>
        match readString r with
        | none => .error .invalidPayload
        | some (key, r) =>
          match readBytes r with
          | none => .error .invalidPayload
          | some (data, r) =>
            if r.length ≠ 0 then .error .invalidPayload
            else .ok ⟨id, idempotencyKey, topic, key, data⟩

/-- The fields of an event as a message, as `encodeEvent` and the client build it. -/
def Event.message (event : Event) : PublishMessage :=
  ⟨event.id, event.idempotencyKey, event.topic, event.key, event.payload⟩

/-- The fields of a message as an event, as `decodeEvent` and the server build it. -/
def PublishMessage.event (message : PublishMessage) : Event :=
  ⟨message.id, message.idempotencyKey, message.topic, message.key, message.payload⟩

def encodeEvent (event : Event) : Except MsgErr Bytes := encodePublish event.message

def decodeEvent (payload : Bytes) : Except MsgErr Event :=
  match decodePublish payload with
  | .error err => .error err
  | .ok message => .ok message.event

def encodeAck (message : AckMessage) : Except MsgErr Bytes := do
  let id ← writeString message.id
  let error ← writeString message.error
  return id ++ (message.status :: error)

def decodeAck (payload : Bytes) : Except MsgErr AckMessage :=
  match readString payload with
  | none => .error .invalidPayload
  | some (id, r) =>
    match readByte r with
    | none => .error .invalidPayload
    | some (status, r) =>
      match readString r with
      | none => .error .invalidPayload
      | some (error, r) =>
        if r.length ≠ 0 then .error .invalidPayload else .ok ⟨id, status, error⟩

def encodeError (message : ErrorMessage) : Except MsgErr Bytes := encodeTopic ⟨message.error⟩

def decodeError (payload : Bytes) : Except MsgErr ErrorMessage :=
  match decodeTopic payload with
  | .error err => .error err
  | .ok message => .ok ⟨message.topic⟩

def encodeShutdown (message : ShutdownMessage) : Except MsgErr Bytes :=
  encodeTopic ⟨message.redirect⟩

def decodeShutdown (payload : Bytes) : Except MsgErr ShutdownMessage :=
  match decodeTopic payload with
  | .error err => .error err
  | .ok message => .ok ⟨message.topic⟩

end EventBus
