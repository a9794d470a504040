import EventBus.Native.Messages

/-!
# The TCP client

Model of `transport/tcp/client.go`. A `Client` has a goroutine that runs `readLoop` and
any number of calls of its methods; each has a program counter. The steps are the
critical sections under `c.pendingMu` and `c.ackedMu`, the single channel operations, and
whole frames read or written. `c.write` only keeps the frames on the wire whole.

The client's input is the list of frames its server has sent and `readLoop` has not read.
`ReadFrame` and `WriteFrame` may fail at any time.
-/

namespace EventBus

/-- The identity of a call of a method of the client. -/
abbrev ClientCall := Nat

/-- The identity of a channel made by `PublishWithResult`: its position among those made by
    the client. -/
abbrev ReplyChan := Nat

/-- `maxRememberedDeliveries`. -/
def maxRememberedDeliveries : Nat := 4096

/-- `PublishStatus`. -/
inductive PublishStatus where
  | accepted
  | duplicate
deriving DecidableEq, Repr

/-- The errors the client returns. -/
inductive ClientErr where
  /-- `ErrClientClosed` -/
  | closed
  | eventIDRequired
  | message (err : MsgErr)
  /-- The error of `WriteFrame`. -/
  | write (text : Bytes)
  /-- The error of `rand.Read`. -/
  | random (text : Bytes)
  /-- `errors.New(ack.Error)` -/
  | rejected (text : Bytes)
  | ctx (err : CtxErr)
deriving DecidableEq, Repr

/-- `err.Error()`. -/
def ClientErr.text : ClientErr → Bytes
  | .closed => ascii "tcp client is closed"
  | .eventIDRequired => ascii "event ID is required"
  | .message err => err.text
  | .write text | .random text | .rejected text => text
  | .ctx err => (Err.ctx err).text

/-- What a method returns. -/
inductive ClientRet where
  | ok
  | status (status : PublishStatus)
  | failed (err : ClientErr)
deriving DecidableEq, Repr

/-! ## Program counters -/

/-- What a method does after `c.send`. -/
inductive AfterClientSend where
  | subscribe
  | acknowledge (eventID : Bytes)
  | publish (ctx : Ctx) (id : Bytes) (ch : ReplyChan)
deriving DecidableEq, Repr

/-- Where a call of a method stands. -/
inductive ClientPc where
  /-- In `PublishWithResult`, before the channel is entered in `c.pending`. -/
  | register (ctx : Ctx) (event : Event)
  /-- In `c.send`, at the look at `c.done`. -/
  | check (frame : Frame) (after : AfterClientSend)
  /-- In `c.send`, at `WriteFrame`. -/
  | write (frame : Frame) (after : AfterClientSend)
  /-- In `PublishWithResult`, at the `select`. -/
  | wait (ctx : Ctx) (id : Bytes) (ch : ReplyChan)
  /-- In `Acknowledge`, at `c.rememberDelivery`. -/
  | remember (eventID : Bytes)
  /-- In `PublishWithResult`, at the deferred `delete(c.pending, event.ID)`. -/
  | leave (id : Bytes) (ret : ClientRet)
  | returned (ret : ClientRet)
deriving DecidableEq, Repr

/-- Where `readLoop` stands. -/
inductive ReadPc where
  /-- `Dial` has not started it. -/
  | idle
  /-- At `ReadFrame`. -/
  | reading
  /-- At the `switch`. -/
  | handle (frame : Frame)
  /-- In the call of `Acknowledge` for an event that was delivered before. -/
  | acknowledge (pc : ClientPc)
  /-- At the `select` that puts the event on `c.events`. -/
  | put (event : Event)
  /-- At `acknowledged <- ack`. -/
  | reply (ch : ReplyChan) (ack : AckMessage)
  /-- At the `select` that puts the redirect on `c.shutdowns`. -/
  | shutdown (redirect : Bytes)
  /-- At the deferred `c.Close()`. -/
  | closing
  /-- At the deferred `close(c.shutdowns)`. -/
  | closeShutdowns
  /-- At the deferred `close(c.events)`. -/
  | closeEvents
  | finished
deriving DecidableEq, Repr

/-- How far `Close` has got; `c.once` lets one call run its body. -/
inductive Closing where
  | fresh
  /-- `c.done` is closed. -/
  | done
  /-- `c.conn` is closed too. -/
  | closed
deriving DecidableEq, Repr

/-! ## State -/

/-- The fields of `Client`, `readLoop` and the calls of its methods. -/
structure Client where
  /-- The frames on the wire that `readLoop` has not read. -/
  input : List Frame
  closing : Closing
  events : Chan Event
  shutdowns : Chan Bytes
  pending : AList fun _ : Bytes => ReplyChan
  /-- The channels made by `PublishWithResult`. -/
  replies : List (Chan AckMessage)
  acked : AList fun _ : Bytes => Unit
  ackedIDs : List Bytes
  reader : ReadPc
  calls : ClientCall → Option ClientPc

def newClient : Client where
  input := []
  closing := .fresh
  events := .make 32
  shutdowns := .make 1
  pending := ∅
  replies := []
  acked := ∅
  ackedIDs := []
  reader := .idle
  calls := fun _ => none

/-- A call of a method. -/
inductive ClientOp where
  | subscribe (topic : Bytes)
  | unsubscribe (topic : Bytes)
  | acknowledge (eventID : Bytes)
  /-- `random` is what `rand.Read` yields, should it be called. -/
  | publishWithResult (ctx : Ctx) (event : Event) (random : Except Bytes (Vector UInt8 16))
  /-- `c.send` of a PING frame, which no method of the client does. -/
  | ping
deriving DecidableEq

/-- What a step of the client does that a run remembers. -/
inductive ClientObs where
  | read (frame : Frame)
  | sent (frame : Frame)
  | invoked (call : ClientCall) (op : ClientOp)
  /-- `PublishWithResult` enters its channel in `c.pending`. -/
  | registered (call : ClientCall) (ch : ReplyChan) (event : Event)
  | returned (call : ClientCall) (ret : ClientRet)
  /-- `readLoop` puts an event on `c.events`. -/
  | put (event : Event)
  /-- `readLoop` puts a redirect on `c.shutdowns`. -/
  | redirected (redirect : Bytes)
  /-- The application receives from `c.events`. -/
  | received (event : Event)
  /-- `c.done` is closed. -/
  | closed
deriving DecidableEq

/-! ## Calls of methods -/

/-- `hex.EncodeToString`, for one byte. -/
def hexByte (b : UInt8) : Bytes :=
  let digit (n : UInt8) : UInt8 := if n < 10 then 48 + n else 87 + n
  [digit (b / 16), digit (b % 16)]

/-- `newMessageID`. -/
def newMessageID (random : Vector UInt8 16) : Bytes := random.toList.flatMap hexByte

/-- `event.ID`, generated if it is empty. -/
def Event.withID (event : Event) (random : Vector UInt8 16) : Event :=
  if event.id = [] then { event with id := newMessageID random } else event

/-- `event.IdempotencyKey`, with the ID as its default. -/
def Event.withIdempotencyKey (event : Event) : Event :=
  if event.idempotencyKey = [] then { event with idempotencyKey := event.id } else event

/-- A method that writes one frame. -/
def startSend (type : FrameType) (payload : Except MsgErr Bytes) (after : AfterClientSend) :
    ClientPc :=
  match payload with
  | .error err => .returned (.failed (.message err))
  | .ok payload => .check ⟨type, payload⟩ after

/-- `Acknowledge` up to its `c.send`. -/
def startAcknowledge (eventID : Bytes) : ClientPc :=
  if eventID = [] then .returned (.failed .eventIDRequired)
  else startSend typeAck (encodeAck ⟨eventID, ackDelivered, []⟩) (.acknowledge eventID)

/-- `PublishWithResult` up to its first `pendingMu` section. -/
def startPublish (ctx : Ctx) (event : Event) : Except Bytes (Vector UInt8 16) → ClientPc
  | .ok random => .register ctx (event.withID random).withIdempotencyKey
  | .error text =>
    if event.id = [] then .returned (.failed (.random text))
    else .register ctx event.withIdempotencyKey

/-- A method up to its first step. -/
def ClientOp.start : ClientOp → ClientPc
  | .subscribe topic => startSend typeSubscribe (encodeTopic ⟨topic⟩) .subscribe
  | .unsubscribe topic => startSend typeUnsubscribe (encodeTopic ⟨topic⟩) .subscribe
  | .acknowledge eventID => startAcknowledge eventID
  | .publishWithResult ctx event random => startPublish ctx event random
  | .ping => .check ⟨typePing, []⟩ .subscribe

/-- Where a method goes on after a `c.send` that succeeded. -/
def AfterClientSend.pc : AfterClientSend → ClientPc
  | .subscribe => .returned .ok
  | .acknowledge eventID => .remember eventID
  | .publish ctx id ch => .wait ctx id ch

/-- Where a method goes on after a `c.send` that returned an error. -/
def AfterClientSend.failed (err : ClientErr) : AfterClientSend → ClientPc
  | .subscribe | .acknowledge _ => .returned (.failed err)
  | .publish _ id _ => .leave id (.failed err)

/-- What `PublishWithResult` makes of an answer. -/
def publishResult (ack : AckMessage) : ClientRet :=
  if ack.status = ackRejected then .failed (.rejected ack.error)
  else if ack.status = ackDuplicate then .status .duplicate
  else .status .accepted

/-- The context may have ended with this error. -/
def Ctx.ends : Ctx → CtxErr → Bool
  | .background, _ => false
  | .live, _ => true
  | .done err, err' => err = err'

/-- One step of a call of a method, with the choices it makes. -/
inductive CallAction where
  | register
  | check
  | write
  /-- `WriteFrame` returns an error of this text. -/
  | writeFails (text : Bytes)
  | acknowledged
  | ctxDone (err : CtxErr)
  | clientDone
  | remember
  | leave
deriving DecidableEq, Repr

/-- The outcome of a step of a call: the client, where the call stands, and what the step
    reports. -/
structure CallOut where
  client : Client
  pc : ClientPc
  obs : List ClientObs

namespace Client

/-- `c.done` is closed. -/
def isDone (c : Client) : Bool :=
  match c.closing with
  | .fresh => false
  | _ => true

/-- `c.conn` is closed. -/
def netClosed (c : Client) : Bool :=
  match c.closing with
  | .closed => true
  | _ => false

def wasDelivered (c : Client) (eventID : Bytes) : Bool := (c.acked.lookup eventID).isSome

def rememberDelivery (c : Client) (eventID : Bytes) : Client :=
  if c.wasDelivered eventID then c
  else
    let acked := c.acked.insert eventID ()
    match c.ackedIDs ++ [eventID] with
    | oldest :: rest =>
      -- the oldest ID is forgotten
      if rest.length + 1 > maxRememberedDeliveries then
        { c with acked := acked.erase oldest, ackedIDs := rest }
      else { c with acked := acked, ackedIDs := oldest :: rest }
    | [] => c

/-- `PublishWithResult` from its first `pendingMu` section to its `c.send`; `call` is only
    reported. -/
def registerCall (c : Client) (call : ClientCall) (ctx : Ctx) (event : Event) : CallOut where
  client := { c with
    replies := c.replies ++ [.make 1]
    pending := c.pending.insert event.id c.replies.length }
  pc :=
    match encodePublish event.message with
    | .error err => .leave event.id (.failed (.message err))
    | .ok payload => .check ⟨typePublish, payload⟩ (.publish ctx event.id c.replies.length)
  obs := [.registered call c.replies.length event]

/-- A step of a call that stands at `pc`. -/
def callStep (c : Client) (call : ClientCall) : ClientPc → CallAction → Option CallOut
  | .register ctx event, .register => some (c.registerCall call ctx event)
  | .check frame after, .check =>
    if c.isDone then some ⟨c, after.failed .closed, []⟩ else some ⟨c, .write frame after, []⟩
  | .write frame after, .write =>
    if c.netClosed then none
    else
      match writeFrame frame with
      | .ok _ => some ⟨c, after.pc, [.sent frame]⟩
      -- `WriteFrame` returns an error, as in the next case
      | .error _ => none
  | .write _ after, .writeFails text => some ⟨c, after.failed (.write text), []⟩
  | .wait _ id ch, .acknowledged =>
    match c.replies[ch]? with
    | some acknowledged =>
      match acknowledged.receive with
      | .done (some ack, acknowledged) =>
        some ⟨{ c with replies := c.replies.set ch acknowledged },
          .leave id (publishResult ack), []⟩
      | _ => none
    | none => none
  | .wait ctx id _, .ctxDone err =>
    if ctx.ends err then some ⟨c, .leave id (.failed (.ctx err)), []⟩ else none
  | .wait _ id _, .clientDone =>
    if c.isDone then some ⟨c, .leave id (.failed .closed), []⟩ else none
  | .remember eventID, .remember => some ⟨c.rememberDelivery eventID, .returned .ok, []⟩
  | .leave id ret, .leave => some ⟨{ c with pending := c.pending.erase id }, .returned ret, []⟩
  | _, _ => none

end Client

/-! ## Steps of the client -/

/-- One step of the client. -/
inductive ClientAction where
  /-- The server sends a frame. -/
  | peerSend (frame : Frame)
  | dial (clientID : Bytes)
  | invoke (call : ClientCall) (op : ClientOp)
  | call (call : ClientCall) (a : CallAction)
  | read
  | readFails
  | dispatch
  /-- A step of the call of `Acknowledge` in `readLoop`. -/
  | readAcknowledge (a : CallAction)
  | put
  | reply
  | shutdown
  /-- `case <-c.done` of a `select` in `readLoop`. -/
  | readDone
  | readClose
  | closeShutdowns
  | closeEvents
  /-- The application calls `Close`. -/
  | close
  /-- `c.conn.Close()`, by the call of `Close` that got past `c.once`. -/
  | closeConn
  /-- The application receives from `c.events`. -/
  | receive
  /-- The application receives from `c.shutdowns`. -/
  | receiveShutdown
deriving DecidableEq

namespace Client

/-- The step ends with the client in this state. -/
def stepped (c : Client) (obs : List ClientObs) : Option (Client × List ClientObs) := some (c, obs)

def peerSend (c : Client) (frame : Frame) : Option (Client × List ClientObs) :=
  { c with input := c.input ++ [frame] }.stepped []

/-- `Dial`, which succeeds. -/
def dial (c : Client) (clientID : Bytes) : Option (Client × List ClientObs) :=
  match c.reader, encodeConnect ⟨clientID⟩ with
  | .idle, .ok payload => { c with reader := .reading }.stepped [.sent ⟨typeConnect, payload⟩]
  | _, _ => none

/-- What a call reports when it gets to `pc`. -/
def returnObs (call : ClientCall) : ClientPc → List ClientObs
  | .returned ret => [.returned call ret]
  | _ => []

def setCall (c : Client) (call : ClientCall) (pc : ClientPc) : Client :=
  { c with calls := Function.update c.calls call (some pc) }

def invoke (c : Client) (call : ClientCall) (op : ClientOp) : Option (Client × List ClientObs) :=
  match c.reader, c.calls call with
  | .idle, _ => none
  | _, some _ => none
  | _, none => (c.setCall call op.start).stepped (.invoked call op :: returnObs call op.start)

def stepCall (c : Client) (call : ClientCall) (a : CallAction) :
    Option (Client × List ClientObs) :=
  match c.calls call with
  | some pc =>
    match c.callStep call pc a with
    | some ⟨c, pc, obs⟩ => (c.setCall call pc).stepped (obs ++ returnObs call pc)
    | none => none
  | none => none

/-! ### readLoop -/

def read (c : Client) : Option (Client × List ClientObs) :=
  if c.netClosed then none
  else
    match c.reader, c.input with
    | .reading, frame :: rest =>
      { c with input := rest, reader := .handle frame }.stepped [.read frame]
    | _, _ => none

def readFails (c : Client) : Option (Client × List ClientObs) :=
  match c.reader with
  | .reading => { c with reader := .closing }.stepped []
  | _ => none

/-- Where `readLoop` goes on with its call of `Acknowledge`, whose result it ignores. -/
def readAcknowledgePc : ClientPc → ReadPc
  | .returned _ => .reading
  | pc => .acknowledge pc

/-- What `readLoop` does with a frame, up to its next step. -/
def handleNext (c : Client) (frame : Frame) : ReadPc :=
  if frame.type = typeEvent then
    match decodeEvent frame.payload with
    | .error _ => .closing
    | .ok event =>
      if c.wasDelivered event.id then readAcknowledgePc (startAcknowledge event.id)
      else .put event
  else if frame.type = typeAck then
    match decodeAck frame.payload with
    | .error _ => .closing
    | .ok ack =>
      match c.pending.lookup ack.id with
      -- an ACK that no call waits for is dropped
      | none => .reading
      | some ch => .reply ch ack
  -- whether or not `decodeError` accepts the payload
  else if frame.type = typeError then .closing
  else if frame.type = typeShutdown then
    match decodeShutdown frame.payload with
    | .error _ => .closing
    | .ok message => .shutdown message.redirect
  else .reading

/-- The `switch`, with the `ackedMu` section of `wasDelivered` or the `pendingMu` section. -/
def dispatch (c : Client) : Option (Client × List ClientObs) :=
  match c.reader with
  | .handle frame => { c with reader := c.handleNext frame }.stepped []
  | _ => none

/-- The call of `Acknowledge` in `readLoop` is none of the application's: it registers no
    channel and its result is not reported. -/
def readAcknowledge (c : Client) (a : CallAction) : Option (Client × List ClientObs) :=
  match c.reader with
  | .acknowledge pc =>
    match c.callStep 0 pc a with
    | some ⟨c, pc, obs⟩ => { c with reader := readAcknowledgePc pc }.stepped obs
    | none => none
  | _ => none

def put (c : Client) : Option (Client × List ClientObs) :=
  match c.reader with
  | .put event =>
    match c.events.send event with
    | .done events => { c with events := events, reader := .reading }.stepped [.put event]
    | _ => none
  | _ => none

def reply (c : Client) : Option (Client × List ClientObs) :=
  match c.reader with
  | .reply ch ack =>
    match c.replies[ch]? with
    | some acknowledged =>
      match acknowledged.send ack with
      | .done acknowledged =>
        { c with replies := c.replies.set ch acknowledged, reader := .reading }.stepped []
      | _ => none
    | none => none
  | _ => none

def shutdown (c : Client) : Option (Client × List ClientObs) :=
  match c.reader with
  | .shutdown redirect =>
    match c.shutdowns.send redirect with
    | .done shutdowns =>
      { c with shutdowns := shutdowns, reader := .closing }.stepped [.redirected redirect]
    | _ => none
  | _ => none

def readDone (c : Client) : Option (Client × List ClientObs) :=
  match c.reader with
  | .put _ | .shutdown _ => if c.isDone then { c with reader := .closing }.stepped [] else none
  | _ => none

/-- The deferred `c.Close()`: it runs the body of `c.once`, or waits for the end of the body
    if another call runs it. -/
def readClose (c : Client) : Option (Client × List ClientObs) :=
  match c.reader, c.closing with
  | .closing, .fresh => { c with closing := .done }.stepped [.closed]
  | .closing, .closed => { c with reader := .closeShutdowns }.stepped []
  | _, _ => none

def closeShutdowns (c : Client) : Option (Client × List ClientObs) :=
  match c.reader, c.shutdowns.close with
  | .closeShutdowns, .done shutdowns =>
    { c with shutdowns := shutdowns, reader := .closeEvents }.stepped []
  | _, _ => none

def closeEvents (c : Client) : Option (Client × List ClientObs) :=
  match c.reader, c.events.close with
  | .closeEvents, .done events => { c with events := events, reader := .finished }.stepped []
  | _, _ => none

/-! ### The application -/

def close (c : Client) : Option (Client × List ClientObs) :=
  match c.reader, c.closing with
  | .idle, _ => none
  | _, .fresh => { c with closing := .done }.stepped [.closed]
  | _, _ => none

def closeConn (c : Client) : Option (Client × List ClientObs) :=
  match c.closing with
  | .done => { c with closing := .closed }.stepped []
  | _ => none

def receive (c : Client) : Option (Client × List ClientObs) :=
  match c.events.receive with
  | .done (some event, events) => { c with events := events }.stepped [.received event]
  | _ => none

def receiveShutdown (c : Client) : Option (Client × List ClientObs) :=
  match c.shutdowns.receive with
  | .done (some _, shutdowns) => { c with shutdowns := shutdowns }.stepped []
  | _ => none

def step (c : Client) : ClientAction → Option (Client × List ClientObs)
  | .peerSend frame => c.peerSend frame
  | .dial clientID => c.dial clientID
  | .invoke call op => c.invoke call op
  | .call call a => c.stepCall call a
  | .read => c.read
  | .readFails => c.readFails
  | .dispatch => c.dispatch
  | .readAcknowledge a => c.readAcknowledge a
  | .put => c.put
  | .reply => c.reply
  | .shutdown => c.shutdown
  | .readDone => c.readDone
  | .readClose => c.readClose
  | .closeShutdowns => c.closeShutdowns
  | .closeEvents => c.closeEvents
  | .close => c.close
  | .closeConn => c.closeConn
  | .receive => c.receive
  | .receiveShutdown => c.receiveShutdown

/-- The runs of a client. -/
def lts : Lts Client ClientAction ClientObs where
  init c := c = newClient
  step := step

end Client

end EventBus
