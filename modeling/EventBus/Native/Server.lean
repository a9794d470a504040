import EventBus.Native.Messages

/-!
# The TCP server

Model of `transport/tcp/server.go`. A `Server` is the broker's bus together with the
connections ever accepted. A `Connection` has a goroutine that runs `serve`, a
delivery goroutine for each subscription it made, and at most one that runs
`gracefulClose`; each has a program counter. `Server.GracefulShutdown` and
`Server.Close` exclude each other through `s.closed`, so that one program counter
(`Ctl`) stands for whichever of the two got past that check.

The steps are the critical sections under `s.mu`, `c.mu` and `c.ackMu`, the single
channel operations, whole frames read or written, and the calls of the broker. A call
of the broker is a call of the bus: the goroutine makes it, the bus runs it in steps of
its own, and the goroutine goes on once it has returned.

Two locks are held across steps: `c.mu`, by `subscribe` while it closes a replaced
subscription, and `c.deliveryMu`, by `subscribe` and by `gracefulClose`. Who holds them
is read off the program counters.

A connection's input is the list of frames its peer has sent and `serve` has not read.
A `Frame` in it is one that `ReadFrame` accepts; anything else on the wire, the end of
the stream and every network failure make `ReadFrame` return an error, which may happen
at any time. A write either puts a whole frame on the wire or fails.
-/

namespace EventBus

/-- The identity of a `*connection`. -/
abbrev ConnId := Nat

/-- The identity of a channel made by `deliver`: its position among those made on the
    connection. -/
abbrev AckChan := Nat

/-- `deliveryMaxAttempts`. -/
def deliveryMaxAttempts : Nat := 3

/-- `ErrNotConnected.Error()`. -/
def errNotConnected : Bytes := ascii "client must send CONNECT first"

/-! ## Program counters -/

/-- A request for which `serve` asks `isDraining`. -/
inductive Request where
  | subscribe (topic : Bytes)
  | publish (payload : Bytes)
deriving DecidableEq, Repr

/-- What `serve` does after a write. -/
inductive AfterSend where
  /-- Read the next frame, whatever the write returned. -/
  | loop
  /-- As in `publish`: report a failed write with `sendError`. -/
  | report
  /-- Return, whatever the write returned. -/
  | quit
deriving DecidableEq, Repr

/-- Where `serve` stands. -/
inductive ServePc where
  /-- At `ReadFrame` for the CONNECT frame. -/
  | handshake
  /-- At `ReadFrame` in the loop. -/
  | reading
  /-- At the `switch`. -/
  | handle (frame : Frame)
  /-- In `subscribe`, at `c.deliveryMu.Lock()`. -/
  | subscribeLock (topic : Bytes)
  /-- In `isDraining`, before the `s.mu` section. -/
  | isDraining (request : Request)
  /-- In `isDraining`, before the `c.mu` section. -/
  | isDrainingConn (request : Request) (serverDraining : Bool)
  /-- In `subscribe`, at the call of `broker.Subscribe`. -/
  | subscribeCall (topic : Bytes)
  | subscribeWait (topic : Bytes) (call : CallId)
  /-- In `subscribe`, before the `c.mu` section. -/
  | subscribeStore (topic : Bytes) (sub : SubPtr)
  /-- In the `c.mu` section of `subscribe`, at the call of `old.Close`. -/
  | subscribeReplace (topic : Bytes) (sub old : SubPtr)
  | subscribeReplaceWait (topic : Bytes) (sub old : SubPtr) (call : CallId)
  /-- In `subscribe`, before the delivery goroutine is started. -/
  | subscribeSpawn (sub : SubPtr)
  /-- At the deferred `c.deliveryMu.Unlock()`, returning `err`. -/
  | subscribeUnlock (err : Option Bytes)
  /-- In `publish`, at the call of `broker.PublishWithResult`. -/
  | publishCall (message : PublishMessage)
  | publishWait (message : PublishMessage) (call : CallId)
  /-- In `acknowledge`, at the `select`. -/
  | acknowledgeSend (ch : AckChan) (status : UInt8)
  /-- In `unsubscribe`, at the call of `sub.Close`. -/
  | unsubscribeCall (sub : SubPtr)
  | unsubscribeWait (sub : SubPtr) (call : CallId)
  /-- At a `c.send`. -/
  | send (frame : Frame) (after : AfterSend)
  /-- At the deferred `c.abort()`. -/
  | abort
  /-- In `c.close()`. -/
  | closing
  | finished
deriving DecidableEq, Repr

/-- Where a delivery goroutine stands. -/
inductive DeliverPc where
  /-- At the head of `range sub.Events()`. -/
  | ranging
  /-- In `deliver`, before the channel is entered in `c.pendingAck`. -/
  | registering (x : Copy)
  /-- In `deliver`, at the `c.send` of an attempt. -/
  | sending (x : Copy) (payload : Bytes) (ch : AckChan) (attempt : Nat)
  /-- In `deliver`, at the `select` of an attempt. -/
  | waiting (x : Copy) (payload : Bytes) (ch : AckChan) (attempt : Nat)
  /-- At the deferred `delete(c.pendingAck, event.ID)`, returning `ok`. -/
  | leaving (x : Copy) (ok : Bool)
  /-- At the deferred `c.deliveryWG.Done()`. -/
  | ending
  | ended
deriving DecidableEq, Repr

/-- Where `gracefulClose` stands. -/
inductive GracefulPc where
  | idle
  /-- Before the `c.mu` section. -/
  | start
  /-- At the head of the loop over the subscriptions; with nothing left, at
      `c.deliveryMu.Lock()`. -/
  | drain (todo : List SubPtr)
  | drainWait (sub : SubPtr) (call : CallId) (todo : List SubPtr)
  /-- At `c.deliveryWG.Wait()`. -/
  | wait
  /-- At `c.deliveryMu.Unlock()`. -/
  | unlock
  /-- At the `c.send` of the SHUTDOWN frame. -/
  | shutdown
  /-- In `closeTransport`, before the `c.mu` section. -/
  | closeTransport
  /-- In `closeTransport`, at `c.net.Close()`. -/
  | closeNet
  /-- In `c.close()`. -/
  | closing
  | finished
deriving DecidableEq, Repr

/-- Who calls `c.close()`. -/
inductive Closer where
  | serve
  | graceful
  | server
deriving DecidableEq, Repr

/-- Where a call of `c.close()` stands. -/
inductive ClosePc where
  | idle
  /-- Before the `c.mu` section. -/
  | start
  /-- At the head of the loop over the subscriptions; with nothing left, at
      `c.net.Close()`. -/
  | subs (todo : List SubPtr)
  | wait (sub : SubPtr) (call : CallId) (todo : List SubPtr)
  | finished
deriving DecidableEq, Repr

/-- Where `GracefulShutdown` or `Close` of the server stands. -/
inductive Ctl where
  | idle
  /-- In `GracefulShutdown`, at the call of `broker.BeginShutdown`. -/
  | beginShutdown (conns : List ConnId)
  | beginWait (call : CallId) (conns : List ConnId)
  /-- In `GracefulShutdown`, at the head of the loop over the connections; with nothing
      left, at `drainWG.Wait()`. -/
  | drain (conns todo : List ConnId)
  /-- In `Close`, at the head of the loop over the connections; with nothing left, at
      `s.wg.Wait()`. -/
  | close (todo : List ConnId)
  /-- In `Close`, in `conn.close()`. -/
  | closeWait (conn : ConnId) (todo : List ConnId)
  | finished
deriving DecidableEq, Repr

/-! ## State -/

/-- The fields of `connection`, and its goroutines. -/
structure Connection where
  /-- The frames on the wire that `serve` has not read. -/
  input : List Frame
  /-- `c.net` has been closed. -/
  netClosed : Bool
  subs : AList fun _ : Bytes => SubPtr
  closed : Bool
  draining : Bool
  deliveryWG : Nat
  pendingAck : AList fun _ : Bytes => AckChan
  /-- The channels made by `deliver`. -/
  acks : List (Chan UInt8)
  serve : ServePc
  graceful : GracefulPc
  closing : Closer → ClosePc
  /-- The delivery goroutine of each subscription. -/
  deliveries : SubPtr → Option DeliverPc

def newConnection : Connection where
  input := []
  netClosed := false
  subs := ∅
  closed := false
  draining := false
  deliveryWG := 0
  pendingAck := ∅
  acks := []
  serve := .handshake
  graceful := .idle
  closing := fun _ => .idle
  deliveries := fun _ => none

/-- The fields of `Server`, its broker and its connections. -/
structure Server where
  bus : Bus
  /-- The calls of the broker made by other users of it than this server. -/
  others : List CallId
  closed : Bool
  draining : Bool
  conns : List ConnId
  /-- Every connection accepted, also after it has been removed from `s.conns`. -/
  connections : ConnId → Option Connection
  ctl : Ctl
  /-- The arguments of `GracefulShutdown`. -/
  ctx : Ctx
  redirect : Bytes

/-- The goroutine that writes a frame. -/
inductive Writer where
  | serve
  | delivery (sub : SubPtr) (ch : AckChan)
  | graceful
deriving DecidableEq, Repr

/-- What a step of a connection does that a run remembers. -/
inductive ConnObs where
  | read (frame : Frame)
  | wrote (writer : Writer) (frame : Frame)
  /-- `subscribe` calls the broker. -/
  | subscribing (topic : Bytes) (call : CallId)
  /-- `publish` calls the broker. -/
  | publishing (message : PublishMessage) (call : CallId)
  /-- `deliver` enters its channel in `c.pendingAck`. -/
  | registered (sub : SubPtr) (ch : AckChan) (x : Copy)
  /-- `acknowledge` looks up an ACK in `c.pendingAck`. -/
  | looked (ack : AckMessage) (ch : Option AckChan)
  /-- `deliver` returns. -/
  | delivered (sub : SubPtr) (x : Copy) (ok : Bool)
deriving DecidableEq, Repr

/-- What a step of the server does that a run remembers. -/
inductive ServerObs where
  | bus (o : Obs)
  | conn (k : ConnId) (o : ConnObs)
  /-- `GracefulShutdown` copies the active connections. -/
  | shuttingDown (conns : List ConnId)
deriving DecidableEq, Repr

/-! ## Steps of a connection -/

/-- One step of a goroutine of a connection, with the choices it makes. -/
inductive ConnAction where
  | serveRead
  | serveReadFails
  | serveDispatch
  | subscribeLock
  | isDraining
  | isDrainingConn
  | subscribeCall (call : CallId)
  | subscribeReturn
  | subscribeStore
  | subscribeReplace (call : CallId)
  | subscribeReplaced
  | subscribeSpawn
  | subscribeUnlock
  | publishCall (call : CallId)
  | publishReturn
  | acknowledgeSend
  | unsubscribeCall (call : CallId)
  | unsubscribeReturn
  | serveSend
  /-- The write fails with an error of this text. -/
  | serveSendFails (text : Bytes)
  | abort
  | serveClosed
  | deliverReceive (sub : SubPtr)
  | deliverRegister (sub : SubPtr)
  | deliverSend (sub : SubPtr)
  | deliverSendFails (sub : SubPtr)
  | deliverAcknowledged (sub : SubPtr)
  | deliverTimeout (sub : SubPtr)
  | deliverLeave (sub : SubPtr)
  | deliverEnd (sub : SubPtr)
  /-- `order` is the iteration order over `c.subs`. -/
  | gracefulStart (order : List SubPtr)
  | gracefulDrain (call : CallId)
  | gracefulDrained
  | gracefulLock
  | gracefulWait
  | gracefulUnlock
  | gracefulSend
  | gracefulSendFails
  | gracefulCloseTransport
  | gracefulCloseNet
  | gracefulClosed
  /-- `order` is the iteration order over `c.subs`. -/
  | closeStart (closer : Closer) (order : List SubPtr)
  | closeSub (closer : Closer) (call : CallId)
  | closeSubReturn (closer : Closer)
  | closeNet (closer : Closer)
deriving DecidableEq, Repr

/-- The outcome of a step of a connection: the connection, the step it makes the bus
    take, and what it reports. -/
structure Out where
  conn : Connection
  bus : Option Action
  obs : List ConnObs

/-- What call `call` of the broker has returned. -/
def Bus.result (w : Bus) (call : CallId) : Option Ret :=
  match w.calls call with
  | some (.returned r) => some r
  | _ => none

/-- Where `serve` goes on after a write that succeeded, or whose error it ignores. -/
def AfterSend.pc : AfterSend → ServePc
  | .loop => .reading
  | .report => .reading
  | .quit => .abort

/-- `c.sendError`: `serve` is about to write an ERROR frame, unless `encodeError` fails. -/
def sendError (text : Bytes) (after : AfterSend) : ServePc :=
  match encodeError ⟨text⟩ with
  | .ok payload => .send ⟨typeError, payload⟩ after
  | .error _ => after.pc

/-- What `serve` does with the first frame. -/
def connectNext (frame : Frame) : ServePc :=
  if frame.type ≠ typeConnect then sendError errNotConnected .quit
  else
    match decodeConnect frame.payload with
    | .error err => sendError (ascii "invalid CONNECT payload: " ++ err.text) .quit
    | .ok _ => .reading

/-- `fmt.Errorf("unsupported frame type: %d", frame.Type)`. -/
def unsupported (type : FrameType) : Bytes :=
  ascii "unsupported frame type: " ++ ascii (toString type.toNat)

/-- What `subscribe` does before it takes `c.deliveryMu`. -/
def subscribeNext (payload : Bytes) : ServePc :=
  match decodeTopic payload with
  | .error _ => sendError (ascii "invalid SUBSCRIBE payload") .loop
  | .ok message =>
    if message.topic = [] then sendError (ascii "invalid SUBSCRIBE payload") .loop
    else .subscribeLock message.topic

/-- What `publish` does before it calls the broker. -/
def publishNext (payload : Bytes) : ServePc :=
  match decodePublish payload with
  | .error _ => sendError (ascii "invalid PUBLISH payload") .loop
  | .ok message =>
    if message.topic = [] then sendError (ascii "invalid PUBLISH payload") .loop
    else .publishCall message

/-- The answer of `publish` to what `PublishWithResult` returned. -/
def publishAck (message : PublishMessage) (r : Ret) : AckMessage :=
  match r with
  | .duplicate => ⟨message.id, ackDuplicate, []⟩
  | .failed err => ⟨message.id, ackRejected, err.text⟩
  | _ => ⟨message.id, ackPublished, []⟩

/-- What `publish` does with the answer. -/
def publishReply (ack : AckMessage) : ServePc :=
  match encodeAck ack with
  | .error err => sendError err.text .loop
  | .ok payload => .send ⟨typeAck, payload⟩ .report

namespace Connection

/-- `c.mu` is held by `serve` across steps. -/
def muHeld (c : Connection) : Bool :=
  match c.serve with
  | .subscribeReplace .. | .subscribeReplaceWait .. => true
  | _ => false

/-- `c.deliveryMu` is held by `subscribe`. -/
def subscribing (c : Connection) : Bool :=
  match c.serve with
  | .isDraining (.subscribe _) | .isDrainingConn (.subscribe _) _ | .subscribeCall _
  | .subscribeWait .. | .subscribeStore .. | .subscribeReplace .. | .subscribeReplaceWait ..
  | .subscribeSpawn _ | .subscribeUnlock _ => true
  | _ => false

/-- `c.deliveryMu` is held by `gracefulClose`. -/
def awaiting (c : Connection) : Bool :=
  match c.graceful with
  | .wait | .unlock => true
  | _ => false

/-- The subscriptions in `c.subs`. -/
def stored (c : Connection) : List SubPtr := c.subs.entries.map (·.2)

/-- A frame may be put on the wire. -/
def writable (c : Connection) (frame : Frame) : Bool :=
  !c.netClosed &&
    match writeFrame frame with
    | .ok _ => true
    | .error _ => false

/-- The step ends with the connection in this state. -/
def done (c : Connection) (obs : List ConnObs) : Option Out := some ⟨c, none, obs⟩

/-- The step calls the broker. -/
def calling (c : Connection) (call : CallId) (op : Op) (obs : List ConnObs) : Option Out :=
  some ⟨c, some (.invoke call op), obs⟩

/-! ### serve -/

/-- `ReadFrame`, which yields the next frame of the input. -/
def serveRead (c : Connection) : Option Out :=
  if c.netClosed then none
  else
    match c.serve, c.input with
    | .handshake, frame :: rest =>
      { c with input := rest, serve := connectNext frame }.done [.read frame]
    | .reading, frame :: rest =>
      { c with input := rest, serve := .handle frame }.done [.read frame]
    | _, _ => none

/-- `ReadFrame`, which returns an error. -/
def serveReadFails (c : Connection) : Option Out :=
  match c.serve with
  | .handshake | .reading => { c with serve := .abort }.done []
  | _ => none

/-- `acknowledge` up to its `ackMu` section. -/
def acknowledge (c : Connection) (payload : Bytes) : Option Out :=
  match decodeAck payload with
  | .error err => { c with serve := sendError err.text .loop }.done []
  | .ok ack =>
    match c.pendingAck.lookup ack.id with
    -- an ACK that no delivery waits for is dropped
    | none => { c with serve := .reading }.done [.looked ack none]
    | some ch => { c with serve := .acknowledgeSend ch ack.status }.done [.looked ack (some ch)]

/-- `unsubscribe` up to its `c.mu` section. -/
def unsubscribe (c : Connection) (payload : Bytes) : Option Out :=
  match decodeTopic payload with
  -- an invalid payload is ignored without an answer
  | .error _ => { c with serve := .reading }.done []
  | .ok message =>
    match c.subs.lookup message.topic with
    | none => { c with serve := .reading }.done []
    | some sub =>
      { c with subs := c.subs.erase message.topic, serve := .unsubscribeCall sub }.done []

/-- The `switch` of the loop. -/
def serveDispatch (c : Connection) : Option Out :=
  match c.serve with
  | .handle frame =>
    if frame.type = typeSubscribe then { c with serve := subscribeNext frame.payload }.done []
    else if frame.type = typePublish then
      { c with serve := .isDraining (.publish frame.payload) }.done []
    else if frame.type = typeAck then c.acknowledge frame.payload
    else if frame.type = typePing then { c with serve := .send ⟨typePong, []⟩ .loop }.done []
    else if frame.type = typeUnsubscribe then c.unsubscribe frame.payload
    else { c with serve := sendError (unsupported frame.type) .loop }.done []
  | _ => none

def subscribeLock (c : Connection) : Option Out :=
  match c.serve with
  | .subscribeLock topic =>
    if c.awaiting then none else { c with serve := .isDraining (.subscribe topic) }.done []
  | _ => none

/-- The `s.mu` section of `isDraining`. -/
def isDraining (c : Connection) (serverDraining : Bool) : Option Out :=
  match c.serve with
  | .isDraining request => { c with serve := .isDrainingConn request serverDraining }.done []
  | _ => none

/-- The `c.mu` section of `isDraining`, and what follows from its result. -/
def isDrainingConn (c : Connection) : Option Out :=
  match c.serve with
  | .isDrainingConn (.subscribe topic) serverDraining =>
    if c.draining || serverDraining then
      { c with serve := .subscribeUnlock (some Err.draining.text) }.done []
    else { c with serve := .subscribeCall topic }.done []
  | .isDrainingConn (.publish payload) serverDraining =>
    if c.draining || serverDraining then
      { c with serve := sendError Err.draining.text .loop }.done []
    else { c with serve := publishNext payload }.done []
  | _ => none

def subscribeCall (c : Connection) (call : CallId) : Option Out :=
  match c.serve with
  | .subscribeCall topic =>
    { c with serve := .subscribeWait topic call }.calling call (.subscribe topic)
      [.subscribing topic call]
  | _ => none

def subscribeReturn (c : Connection) (w : Bus) : Option Out :=
  match c.serve with
  | .subscribeWait topic call =>
    match w.result call with
    | some (.subscribed sub) => { c with serve := .subscribeStore topic sub }.done []
    | some (.failed err) => { c with serve := .subscribeUnlock (some err.text) }.done []
    | _ => none
  | _ => none

/-- `c.mu.Lock()`, and the section up to a call of `old.Close`. -/
def subscribeStore (c : Connection) : Option Out :=
  match c.serve with
  | .subscribeStore topic sub =>
    match c.subs.lookup topic with
    | some old => { c with serve := .subscribeReplace topic sub old }.done []
    | none => { c with subs := c.subs.insert topic sub, serve := .subscribeSpawn sub }.done []
  | _ => none

def subscribeReplace (c : Connection) (call : CallId) : Option Out :=
  match c.serve with
  | .subscribeReplace topic sub old =>
    { c with serve := .subscribeReplaceWait topic sub old call }.calling call
      (.closeSubscription old) []
  | _ => none

/-- `old.Close` has returned; the rest of the `c.mu` section. -/
def subscribeReplaced (c : Connection) (w : Bus) : Option Out :=
  match c.serve with
  | .subscribeReplaceWait topic sub _ call =>
    match w.result call with
    | some _ => { c with subs := c.subs.insert topic sub, serve := .subscribeSpawn sub }.done []
    | none => none
  | _ => none

def subscribeSpawn (c : Connection) : Option Out :=
  match c.serve with
  | .subscribeSpawn sub =>
    { c with
      deliveryWG := c.deliveryWG + 1
      deliveries := Function.update c.deliveries sub (some .ranging)
      serve := .subscribeUnlock none }.done []
  | _ => none

/-- The deferred `c.deliveryMu.Unlock()`, and `sendError` if `subscribe` failed. -/
def subscribeUnlock (c : Connection) : Option Out :=
  match c.serve with
  | .subscribeUnlock none => { c with serve := .reading }.done []
  | .subscribeUnlock (some text) => { c with serve := sendError text .loop }.done []
  | _ => none

def publishCall (c : Connection) (call : CallId) : Option Out :=
  match c.serve with
  | .publishCall message =>
    { c with serve := .publishWait message call }.calling call
      (.publishWithResult .background message.event) [.publishing message call]
  | _ => none

def publishReturn (c : Connection) (w : Bus) : Option Out :=
  match c.serve with
  | .publishWait message call =>
    match w.result call with
    | some r => { c with serve := publishReply (publishAck message r) }.done []
    | none => none
  | _ => none

/-- The `select` of `acknowledge`: a full channel drops the status. -/
def acknowledgeSend (c : Connection) : Option Out :=
  match c.serve with
  | .acknowledgeSend ch status =>
    match c.acks[ch]? with
    | some acknowledged =>
      match acknowledged.send status with
      | .done acknowledged =>
        { c with acks := c.acks.set ch acknowledged, serve := .reading }.done []
      | .blocked => { c with serve := .reading }.done []
      | .panics => none
    | none => none
  | _ => none

def unsubscribeCall (c : Connection) (call : CallId) : Option Out :=
  match c.serve with
  | .unsubscribeCall sub =>
    { c with serve := .unsubscribeWait sub call }.calling call (.closeSubscription sub) []
  | _ => none

def unsubscribeReturn (c : Connection) (w : Bus) : Option Out :=
  match c.serve with
  | .unsubscribeWait _ call =>
    match w.result call with
    | some _ => { c with serve := .reading }.done []
    | none => none
  | _ => none

/-- `c.send` writes the frame. -/
def serveSend (c : Connection) : Option Out :=
  match c.serve with
  | .send frame after =>
    if c.writable frame then { c with serve := after.pc }.done [.wrote .serve frame] else none
  | _ => none

/-- `c.send` returns an error with this text. -/
def serveSendFails (c : Connection) (text : Bytes) : Option Out :=
  match c.serve with
  -- `publish` returns the error, which `serve` reports in an ERROR frame
  | .send _ .report => { c with serve := sendError text .loop }.done []
  | .send _ after => { c with serve := after.pc }.done []
  | _ => none

/-- `abort`, up to its call of `c.close()`. -/
def abort (c : Connection) (serverDraining : Bool) : Option Out :=
  match c.serve with
  | .abort =>
    -- while the connection drains, it is left to `gracefulClose`
    if c.draining || serverDraining then { c with serve := .finished }.done []
    else
      { c with serve := .closing, closing := Function.update c.closing .serve .start }.done []
  | _ => none

def serveClosed (c : Connection) : Option Out :=
  match c.serve with
  | .closing => if c.closing .serve = .finished then { c with serve := .finished }.done [] else none
  | _ => none

/-! ### Delivery goroutines -/

def setDelivery (c : Connection) (sub : SubPtr) (pc : DeliverPc) : Connection :=
  { c with deliveries := Function.update c.deliveries sub (some pc) }

/-- The next event of `range sub.Events()`, or its end. -/
def deliverReceive (c : Connection) (w : Bus) (sub : SubPtr) : Option Out :=
  match c.deliveries sub, w.subs[sub]? with
  | some .ranging, some subscription =>
    match subscription.events.receive with
    | .done (some x, _) => some ⟨c.setDelivery sub (.registering x), some (.receive sub), []⟩
    | .done (none, _) => some ⟨c.setDelivery sub .ending, some (.receive sub), []⟩
    | .blocked => none
    | .panics => none
  | _, _ => none

/-- `deliver` up to the `ackMu` section that enters its channel. -/
def deliverRegister (c : Connection) (sub : SubPtr) : Option Out :=
  match c.deliveries sub with
  | some (.registering x) =>
    match encodeEvent x.event with
    | .error _ => (c.setDelivery sub .ending).done [.delivered sub x false]
    | .ok payload =>
      { c.setDelivery sub (.sending x payload c.acks.length 1) with
        acks := c.acks ++ [Chan.make 1]
        -- the entry of another delivery with this ID is overwritten
        pendingAck := c.pendingAck.insert x.event.id c.acks.length }.done
          [.registered sub c.acks.length x]
  | _ => none

def deliverSend (c : Connection) (sub : SubPtr) : Option Out :=
  match c.deliveries sub with
  | some (.sending x payload ch attempt) =>
    if c.writable ⟨typeEvent, payload⟩ then
      (c.setDelivery sub (.waiting x payload ch attempt)).done
        [.wrote (.delivery sub ch) ⟨typeEvent, payload⟩]
    else none
  | _ => none

def deliverSendFails (c : Connection) (sub : SubPtr) : Option Out :=
  match c.deliveries sub with
  | some (.sending x _ _ _) => (c.setDelivery sub (.leaving x false)).done []
  | _ => none

/-- The end of an attempt without `ackDelivered`. -/
def nextAttempt (x : Copy) (payload : Bytes) (ch : AckChan) (attempt : Nat) : DeliverPc :=
  if attempt < deliveryMaxAttempts then .sending x payload ch (attempt + 1)
  else .leaving x false

/-- `case status := <-acknowledged`. -/
def deliverAcknowledged (c : Connection) (sub : SubPtr) : Option Out :=
  match c.deliveries sub with
  | some (.waiting x payload ch attempt) =>
    match c.acks[ch]? with
    | some acknowledged =>
      match acknowledged.receive with
      | .done (some status, acknowledged) =>
        { c.setDelivery sub (if status = ackDelivered then .leaving x true
            else nextAttempt x payload ch attempt) with
          acks := c.acks.set ch acknowledged }.done []
      | _ => none
    | none => none
  | _ => none

/-- `case <-timer.C`. -/
def deliverTimeout (c : Connection) (sub : SubPtr) : Option Out :=
  match c.deliveries sub with
  | some (.waiting x payload ch attempt) =>
    (c.setDelivery sub (nextAttempt x payload ch attempt)).done []
  | _ => none

/-- `deliver` returns; the goroutine goes on with the next event or ends. -/
def deliverLeave (c : Connection) (sub : SubPtr) : Option Out :=
  match c.deliveries sub with
  | some (.leaving x ok) =>
    { c.setDelivery sub (if ok then .ranging else .ending) with
      -- whichever delivery has made the entry
      pendingAck := c.pendingAck.erase x.event.id }.done [.delivered sub x ok]
  | _ => none

def deliverEnd (c : Connection) (sub : SubPtr) : Option Out :=
  match c.deliveries sub with
  | some .ending => { c.setDelivery sub .ended with deliveryWG := c.deliveryWG - 1 }.done []
  | _ => none

/-! ### gracefulClose -/

/-- The `c.mu` section of `gracefulClose`. -/
def gracefulStart (c : Connection) (order : List SubPtr) : Option Out :=
  match c.graceful with
  | .start =>
    if c.muHeld then none
    else if c.closed then { c with graceful := .finished }.done []
    else if order.Perm c.stored then { c with draining := true, graceful := .drain order }.done []
    else none
  | _ => none

def gracefulDrain (c : Connection) (ctx : Ctx) (call : CallId) : Option Out :=
  match c.graceful with
  | .drain (sub :: todo) =>
    { c with graceful := .drainWait sub call todo }.calling call (.drain ctx sub) []
  | _ => none

def gracefulDrained (c : Connection) (w : Bus) : Option Out :=
  match c.graceful with
  | .drainWait _ call todo =>
    match w.result call with
    -- the context has ended: the connection is closed without a SHUTDOWN frame
    | some (.failed _) =>
      { c with
        graceful := .closing
        closing := Function.update c.closing .graceful .start }.done []
    | some _ => { c with graceful := .drain todo }.done []
    | none => none
  | _ => none

/-- `c.deliveryMu.Lock()`. -/
def gracefulLock (c : Connection) : Option Out :=
  match c.graceful with
  | .drain [] => if c.subscribing then none else { c with graceful := .wait }.done []
  | _ => none

def gracefulWait (c : Connection) : Option Out :=
  match c.graceful with
  | .wait => if c.deliveryWG = 0 then { c with graceful := .unlock }.done [] else none
  | _ => none

def gracefulUnlock (c : Connection) : Option Out :=
  match c.graceful with
  | .unlock => { c with graceful := .shutdown }.done []
  | _ => none

/-- The SHUTDOWN frame is written, unless `encodeShutdown` fails. -/
def gracefulSend (c : Connection) (redirect : Bytes) : Option Out :=
  match c.graceful with
  | .shutdown =>
    match encodeShutdown ⟨redirect⟩ with
    | .error _ => { c with graceful := .closeTransport }.done []
    | .ok payload =>
      if c.writable ⟨typeShutdown, payload⟩ then
        { c with graceful := .closeTransport }.done [.wrote .graceful ⟨typeShutdown, payload⟩]
      else none
  | _ => none

def gracefulSendFails (c : Connection) : Option Out :=
  match c.graceful with
  | .shutdown => { c with graceful := .closeTransport }.done []
  | _ => none

def gracefulCloseTransport (c : Connection) : Option Out :=
  match c.graceful with
  | .closeTransport =>
    if c.muHeld then none else { c with closed := true, graceful := .closeNet }.done []
  | _ => none

def gracefulCloseNet (c : Connection) : Option Out :=
  match c.graceful with
  | .closeNet => { c with netClosed := true, graceful := .finished }.done []
  | _ => none

def gracefulClosed (c : Connection) : Option Out :=
  match c.graceful with
  | .closing =>
    if c.closing .graceful = .finished then { c with graceful := .finished }.done [] else none
  | _ => none

/-! ### close -/

def setClosing (c : Connection) (closer : Closer) (pc : ClosePc) : Connection :=
  { c with closing := Function.update c.closing closer pc }

/-- The `c.mu` section of `close`. -/
def closeStart (c : Connection) (closer : Closer) (order : List SubPtr) : Option Out :=
  match c.closing closer with
  | .start =>
    if c.muHeld then none
    else if c.closed then (c.setClosing closer .finished).done []
    else if order.Perm c.stored then
      { c.setClosing closer (.subs order) with closed := true, subs := ∅ }.done []
    else none
  | _ => none

def closeSub (c : Connection) (closer : Closer) (call : CallId) : Option Out :=
  match c.closing closer with
  | .subs (sub :: todo) =>
    (c.setClosing closer (.wait sub call todo)).calling call (.closeSubscription sub) []
  | _ => none

def closeSubReturn (c : Connection) (w : Bus) (closer : Closer) : Option Out :=
  match c.closing closer with
  | .wait _ call todo =>
    match w.result call with
    | some _ => (c.setClosing closer (.subs todo)).done []
    | none => none
  | _ => none

/-- `c.net.Close()`. -/
def closeNet (c : Connection) (closer : Closer) : Option Out :=
  match c.closing closer with
  | .subs [] => { c.setClosing closer .finished with netClosed := true }.done []
  | _ => none

end Connection

/-- A step of a goroutine of connection `c` of server `s`. -/
def Server.connStep (s : Server) (c : Connection) : ConnAction → Option Out
  | .serveRead => c.serveRead
  | .serveReadFails => c.serveReadFails
  | .serveDispatch => c.serveDispatch
  | .subscribeLock => c.subscribeLock
  | .isDraining => c.isDraining s.draining
  | .isDrainingConn => c.isDrainingConn
  | .subscribeCall call => c.subscribeCall call
  | .subscribeReturn => c.subscribeReturn s.bus
  | .subscribeStore => c.subscribeStore
  | .subscribeReplace call => c.subscribeReplace call
  | .subscribeReplaced => c.subscribeReplaced s.bus
  | .subscribeSpawn => c.subscribeSpawn
  | .subscribeUnlock => c.subscribeUnlock
  | .publishCall call => c.publishCall call
  | .publishReturn => c.publishReturn s.bus
  | .acknowledgeSend => c.acknowledgeSend
  | .unsubscribeCall call => c.unsubscribeCall call
  | .unsubscribeReturn => c.unsubscribeReturn s.bus
  | .serveSend => c.serveSend
  | .serveSendFails text => c.serveSendFails text
  | .abort => c.abort s.draining
  | .serveClosed => c.serveClosed
  | .deliverReceive sub => c.deliverReceive s.bus sub
  | .deliverRegister sub => c.deliverRegister sub
  | .deliverSend sub => c.deliverSend sub
  | .deliverSendFails sub => c.deliverSendFails sub
  | .deliverAcknowledged sub => c.deliverAcknowledged sub
  | .deliverTimeout sub => c.deliverTimeout sub
  | .deliverLeave sub => c.deliverLeave sub
  | .deliverEnd sub => c.deliverEnd sub
  | .gracefulStart order => c.gracefulStart order
  | .gracefulDrain call => c.gracefulDrain s.ctx call
  | .gracefulDrained => c.gracefulDrained s.bus
  | .gracefulLock => c.gracefulLock
  | .gracefulWait => c.gracefulWait
  | .gracefulUnlock => c.gracefulUnlock
  | .gracefulSend => c.gracefulSend s.redirect
  | .gracefulSendFails => c.gracefulSendFails
  | .gracefulCloseTransport => c.gracefulCloseTransport
  | .gracefulCloseNet => c.gracefulCloseNet
  | .gracefulClosed => c.gracefulClosed
  | .closeStart closer order => c.closeStart closer order
  | .closeSub closer call => c.closeSub closer call
  | .closeSubReturn closer => c.closeSubReturn s.bus closer
  | .closeNet closer => c.closeNet closer

/-! ## Steps of the server -/

/-- One step of the server. -/
inductive ServerAction where
  /-- A step of the bus: inside a call of the broker, or of another user of it. -/
  | bus (a : Action)
  | accept (k : ConnId)
  /-- The peer of connection `k` sends a frame. -/
  | peerSend (k : ConnId) (frame : Frame)
  | conn (k : ConnId) (a : ConnAction)
  /-- The goroutine of `serve` ends. -/
  | removeConnection (k : ConnId)
  /-- The `s.mu` section of `GracefulShutdown`; `order` is the iteration order. -/
  | gracefulShutdown (ctx : Ctx) (redirect : Bytes) (order : List ConnId)
  | beginShutdown (call : CallId)
  | beginReturn
  /-- One turn of the loop that starts the `gracefulClose` goroutines. -/
  | drainConn
  | drainReturn
  /-- The `s.mu` section of `Close`; `order` is the iteration order. -/
  | close (order : List ConnId)
  | closeConn
  | closeConnReturn
  | closeReturn
deriving DecidableEq, Repr

namespace Server

def setConn (s : Server) (k : ConnId) (c : Connection) : Server :=
  { s with connections := Function.update s.connections k (some c) }

/-- Another user of the broker than the server has been given this subscription. -/
def heldByOthers (s : Server) (sub : SubPtr) : Bool :=
  s.others.any fun call => s.bus.calls call = some (.returned (.subscribed sub))

/-- Another user may call the broker, and may receive from or close a subscription
    that was returned to it. Steps inside calls are taken by the callers. -/
def admits (s : Server) : Action → Bool
  | .invoke _ (.drain _ sub) | .invoke _ (.closeSubscription sub) | .receive sub =>
    s.heldByOthers sub
  | _ => true

/-- The calls of other users after a step they, or the bus, take. -/
def othersAfter (s : Server) : Action → List CallId
  | .invoke call _ => call :: s.others
  | _ => s.others

def busStep (s : Server) (a : Action) : Option (Server × List ServerObs) :=
  if s.admits a then
    match s.bus.step a with
    | some (bus, os) => some ({ s with bus := bus, others := s.othersAfter a }, os.map .bus)
    | none => none
  else none

/-- The rest of `Serve` once `Accept` has returned a connection. -/
def accept (s : Server) (k : ConnId) : Option (Server × List ServerObs) :=
  match s.connections k with
  | none =>
    if s.closed then none
    else some ({ s.setConn k newConnection with conns := k :: s.conns }, [])
  | some _ => none

def peerSend (s : Server) (k : ConnId) (frame : Frame) : Option (Server × List ServerObs) :=
  match s.connections k with
  | some c =>
    match writeFrame frame with
    | .ok _ => some (s.setConn k { c with input := c.input ++ [frame] }, [])
    | .error _ => none
  | none => none

/-- A step of a connection, with the step of the bus that belongs to it. -/
def stepConn (s : Server) (k : ConnId) (a : ConnAction) : Option (Server × List ServerObs) :=
  match s.connections k with
  | some c =>
    match s.connStep c a with
    | some ⟨c, none, obs⟩ => some (s.setConn k c, obs.map (.conn k))
    | some ⟨c, some a, obs⟩ =>
      match s.bus.step a with
      | some (bus, os) =>
        some ({ s.setConn k c with bus := bus }, os.map .bus ++ obs.map (.conn k))
      | none => none
    | none => none
  | none => none

def removeConnection (s : Server) (k : ConnId) : Option (Server × List ServerObs) :=
  match s.connections k with
  | some c =>
    if c.serve = .finished ∧ k ∈ s.conns then some ({ s with conns := s.conns.erase k }, [])
    else none
  | none => none

/-- `GracefulShutdown` up to the end of its `s.mu` section. -/
def gracefulShutdown (s : Server) (ctx : Ctx) (redirect : Bytes) (order : List ConnId) :
    Option (Server × List ServerObs) :=
  if s.closed then none
  else if order.Perm s.conns then
    some ({ s with
      closed := true
      draining := true
      ctl := .beginShutdown order
      ctx := ctx
      redirect := redirect }, [.shuttingDown order])
  else none

def beginShutdown (s : Server) (call : CallId) : Option (Server × List ServerObs) :=
  match s.ctl with
  | .beginShutdown conns =>
    match s.bus.step (.invoke call .beginShutdown) with
    | some (bus, os) => some ({ s with bus := bus, ctl := .beginWait call conns }, os.map .bus)
    | none => none
  | _ => none

def beginReturn (s : Server) : Option (Server × List ServerObs) :=
  match s.ctl with
  | .beginWait call conns =>
    match s.bus.result call with
    | some _ => some ({ s with ctl := .drain conns conns }, [])
    | none => none
  | _ => none

/-- The `conn.mu` section of one connection, and the start of its `gracefulClose`. -/
def drainConn (s : Server) : Option (Server × List ServerObs) :=
  match s.ctl with
  | .drain conns (k :: todo) =>
    match s.connections k with
    | some c =>
      if c.muHeld then none
      else
        some ({ s.setConn k { c with draining := c.draining || !c.closed, graceful := .start } with
          ctl := .drain conns todo }, [])
    | none => none
  | _ => none

/-- `drainWG.Wait()`. -/
def drainReturn (s : Server) : Option (Server × List ServerObs) :=
  match s.ctl with
  | .drain conns [] =>
    if conns.all fun k => (s.connections k).any fun c => c.graceful = .finished then
      some ({ s with ctl := .finished }, [])
    else none
  | _ => none

/-- `Close` up to the end of its `s.mu` section. -/
def close (s : Server) (order : List ConnId) : Option (Server × List ServerObs) :=
  if s.closed then none
  else if order.Perm s.conns then some ({ s with closed := true, ctl := .close order }, [])
  else none

/-- The call of `conn.close()` on the next connection. -/
def closeConn (s : Server) : Option (Server × List ServerObs) :=
  match s.ctl with
  | .close (k :: todo) =>
    match s.connections k with
    | some c =>
      some ({ s.setConn k (c.setClosing .server .start) with ctl := .closeWait k todo }, [])
    | none => none
  | _ => none

def closeConnReturn (s : Server) : Option (Server × List ServerObs) :=
  match s.ctl with
  | .closeWait k todo =>
    match s.connections k with
    | some c =>
      if c.closing .server = .finished then some ({ s with ctl := .close todo }, []) else none
    | none => none
  | _ => none

/-- `s.wg.Wait()`. -/
def closeReturn (s : Server) : Option (Server × List ServerObs) :=
  match s.ctl with
  | .close [] => if s.conns = [] then some ({ s with ctl := .finished }, []) else none
  | _ => none

def step (s : Server) : ServerAction → Option (Server × List ServerObs)
  | .bus a => s.busStep a
  | .accept k => s.accept k
  | .peerSend k frame => s.peerSend k frame
  | .conn k a => s.stepConn k a
  | .removeConnection k => s.removeConnection k
  | .gracefulShutdown ctx redirect order => s.gracefulShutdown ctx redirect order
  | .beginShutdown call => s.beginShutdown call
  | .beginReturn => s.beginReturn
  | .drainConn => s.drainConn
  | .drainReturn => s.drainReturn
  | .close order => s.close order
  | .closeConn => s.closeConn
  | .closeConnReturn => s.closeConnReturn
  | .closeReturn => s.closeReturn

end Server

/-- `NewServer(New(config))`. -/
def newServer (config : Config) : Server where
  bus := new config
  others := []
  closed := false
  draining := false
  conns := []
  connections := fun _ => none
  ctl := .idle
  ctx := .background
  redirect := []

/-- The runs of a server for a broker created with `config`. -/
def Server.lts (config : Config) : Lts Server ServerAction ServerObs where
  init s := s = newServer config
  step := Server.step

end EventBus
