import EventBus.Native.Server
import EventBus.Spec.BrokerStep

/-!
# What a step of a connection can do

`ConnMove s c a out` lists every way in which a goroutine of connection `c` can move:
the guards under which it does and what it changes. Moves that change the program
counter of one goroutine only are collected in `ServeMove`, `DeliverMove`,
`GracefulMove` and `CloseMove`. Invariants are proved by cases on these relations and
never unfold `Server.connStep`.

## Key results

- `connStep_move`: every step of a connection is one of the moves
- `subscribeNext_cases`, `publishNext_cases`, `publishReply_cases`: a request goes on, or an
  error is reported
-/

namespace EventBus

variable {call : CallId} {a : ConnAction} {pc pc' : ServePc} {obs : List ConnObs} {frame : Frame}
  {sub : SubPtr} {order : List SubPtr} {closer : Closer}

/-! ## Moves of one goroutine -/

/-- `serve` goes from the first program counter to the second and changes nothing else
    of its connection. -/
inductive ServeMove (s : Server) (c : Connection) :
    ConnAction → ServePc → ServePc → Option Action → List ConnObs → Prop
  -- `ReadFrame` returns an error
  | handshakeFails : ServeMove s c .serveReadFails .handshake .abort none []
  | readFails : ServeMove s c .serveReadFails .reading .abort none []
  -- the `switch` on the type of the frame
  | subscribe {frame : Frame} : frame.type = typeSubscribe →
      ServeMove s c .serveDispatch (.handle frame) (subscribeNext frame.payload) none []
  | publish {frame : Frame} : frame.type = typePublish →
      ServeMove s c .serveDispatch (.handle frame) (.isDraining (.publish frame.payload)) none []
  | ackInvalid {frame : Frame} {err : MsgErr} : frame.type = typeAck →
      decodeAck frame.payload = .error err →
      ServeMove s c .serveDispatch (.handle frame) (sendError err.text .loop) none []
  | ackUnknown {frame : Frame} {ack : AckMessage} : frame.type = typeAck →
      decodeAck frame.payload = .ok ack → c.pendingAck.lookup ack.id = none →
      ServeMove s c .serveDispatch (.handle frame) .reading none [.looked ack none]
  | ackKnown {frame : Frame} {ack : AckMessage} {ch : AckChan} : frame.type = typeAck →
      decodeAck frame.payload = .ok ack → c.pendingAck.lookup ack.id = some ch →
      ServeMove s c .serveDispatch (.handle frame) (.acknowledgeSend ch ack.status) none
        [.looked ack (some ch)]
  | ping {frame : Frame} : frame.type = typePing →
      ServeMove s c .serveDispatch (.handle frame) (.send ⟨typePong, []⟩ .loop) none []
  | unsubscribeInvalid {frame : Frame} {err : MsgErr} : frame.type = typeUnsubscribe →
      decodeTopic frame.payload = .error err →
      ServeMove s c .serveDispatch (.handle frame) .reading none []
  | unsubscribeUnknown {frame : Frame} {message : TopicMessage} :
      frame.type = typeUnsubscribe → decodeTopic frame.payload = .ok message →
      c.subs.lookup message.topic = none →
      ServeMove s c .serveDispatch (.handle frame) .reading none []
  | unsupported {frame : Frame} : frame.type ≠ typeSubscribe → frame.type ≠ typePublish →
      frame.type ≠ typeAck → frame.type ≠ typePing → frame.type ≠ typeUnsubscribe →
      ServeMove s c .serveDispatch (.handle frame)
        (sendError (EventBus.unsupported frame.type) .loop) none []
  -- `subscribe` and `publish` up to the result of `isDraining`
  | subscribeLock {topic : Bytes} : c.awaiting = false →
      ServeMove s c .subscribeLock (.subscribeLock topic) (.isDraining (.subscribe topic)) none []
  | isDraining {request : Request} :
      ServeMove s c .isDraining (.isDraining request) (.isDrainingConn request s.draining) none []
  | subscribeDraining {topic : Bytes} {b : Bool} : (c.draining || b) = true →
      ServeMove s c .isDrainingConn (.isDrainingConn (.subscribe topic) b)
        (.subscribeUnlock (some Err.draining.text)) none []
  | subscribeAllowed {topic : Bytes} {b : Bool} : (c.draining || b) = false →
      ServeMove s c .isDrainingConn (.isDrainingConn (.subscribe topic) b) (.subscribeCall topic)
        none []
  | publishDraining {payload : Bytes} {b : Bool} : (c.draining || b) = true →
      ServeMove s c .isDrainingConn (.isDrainingConn (.publish payload) b)
        (sendError Err.draining.text .loop) none []
  | publishAllowed {payload : Bytes} {b : Bool} : (c.draining || b) = false →
      ServeMove s c .isDrainingConn (.isDrainingConn (.publish payload) b) (publishNext payload)
        none []
  -- `subscribe`, which holds `c.deliveryMu`
  | subscribeCall {topic : Bytes} {call : CallId} :
      ServeMove s c (.subscribeCall call) (.subscribeCall topic) (.subscribeWait topic call)
        (some (.invoke call (.subscribe topic))) [.subscribing topic call]
  | subscribeReturn {topic : Bytes} {call : CallId} {sub : SubPtr} :
      s.bus.calls call = some (.returned (.subscribed sub)) →
      ServeMove s c .subscribeReturn (.subscribeWait topic call) (.subscribeStore topic sub) none []
  | subscribeFailed {topic : Bytes} {call : CallId} {err : Err} :
      s.bus.calls call = some (.returned (.failed err)) →
      ServeMove s c .subscribeReturn (.subscribeWait topic call) (.subscribeUnlock (some err.text))
        none []
  | subscribeOld {topic : Bytes} {sub old : SubPtr} : c.subs.lookup topic = some old →
      ServeMove s c .subscribeStore (.subscribeStore topic sub) (.subscribeReplace topic sub old)
        none []
  | subscribeReplace {topic : Bytes} {sub old : SubPtr} {call : CallId} :
      ServeMove s c (.subscribeReplace call) (.subscribeReplace topic sub old)
        (.subscribeReplaceWait topic sub old call) (some (.invoke call (.closeSubscription old))) []
  | subscribeDone : ServeMove s c .subscribeUnlock (.subscribeUnlock none) .reading none []
  | subscribeError {text : Bytes} :
      ServeMove s c .subscribeUnlock (.subscribeUnlock (some text)) (sendError text .loop) none []
  -- `publish`, `acknowledge` and `unsubscribe`
  | publishCall {message : PublishMessage} {call : CallId} :
      ServeMove s c (.publishCall call) (.publishCall message) (.publishWait message call)
        (some (.invoke call (.publishWithResult .background message.event)))
        [.publishing message call]
  | publishReturn {message : PublishMessage} {call : CallId} {r : Ret} :
      s.bus.calls call = some (.returned r) →
      ServeMove s c .publishReturn (.publishWait message call)
        (publishReply (publishAck message r)) none []
  | ackDropped {ch : AckChan} {status : UInt8} {acknowledged : Chan UInt8} :
      c.acks[ch]? = some acknowledged → acknowledged.send status = .blocked →
      ServeMove s c .acknowledgeSend (.acknowledgeSend ch status) .reading none []
  | unsubscribeCall {sub : SubPtr} {call : CallId} :
      ServeMove s c (.unsubscribeCall call) (.unsubscribeCall sub) (.unsubscribeWait sub call)
        (some (.invoke call (.closeSubscription sub))) []
  | unsubscribeReturn {sub : SubPtr} {call : CallId} {r : Ret} :
      s.bus.calls call = some (.returned r) →
      ServeMove s c .unsubscribeReturn (.unsubscribeWait sub call) .reading none []
  -- `send`; only `publish` looks at its error
  | send {frame : Frame} {after : AfterSend} : c.writable frame = true →
      ServeMove s c .serveSend (.send frame after) after.pc none [.wrote .serve frame]
  | sendReport {frame : Frame} {text : Bytes} :
      ServeMove s c (.serveSendFails text) (.send frame .report) (sendError text .loop) none []
  | sendIgnore {frame : Frame} {after : AfterSend} {text : Bytes} : after ≠ .report →
      ServeMove s c (.serveSendFails text) (.send frame after) after.pc none []
  -- the deferred functions of `serve`: a connection that drains is closed by `gracefulClose`
  | abortDraining : (c.draining || s.draining) = true →
      ServeMove s c .abort .abort .finished none []
  | closed : c.closing .serve = .finished → ServeMove s c .serveClosed .closing .finished none []

/-- The delivery goroutine of `sub` goes from the first program counter to the second and
    changes nothing else of its connection. -/
inductive DeliverMove (s : Server) (c : Connection) (sub : SubPtr) :
    ConnAction → DeliverPc → DeliverPc → Option Action → List ConnObs → Prop
  | receive {subscription : Subscription} {x : Copy} {events : Chan Copy} :
      s.bus.subs[sub]? = some subscription →
      subscription.events.receive = .done (some x, events) →
      DeliverMove s c sub (.deliverReceive sub) .ranging (.registering x) (some (.receive sub)) []
  -- the channel is closed and empty, and `range` ends
  | receiveEnd {subscription : Subscription} : s.bus.subs[sub]? = some subscription →
      subscription.events.buf = [] → subscription.events.closed = true →
      DeliverMove s c sub (.deliverReceive sub) .ranging .ending (some (.receive sub)) []
  -- before the entry in `c.pendingAck`, so that there is none to delete
  | encodeFails {x : Copy} {err : MsgErr} : encodeEvent x.event = .error err →
      DeliverMove s c sub (.deliverRegister sub) (.registering x) .ending none
        [.delivered sub x false]
  | send {x : Copy} {payload : Bytes} {ch : AckChan} {attempt : Nat} :
      c.writable ⟨typeEvent, payload⟩ = true →
      DeliverMove s c sub (.deliverSend sub) (.sending x payload ch attempt)
        (.waiting x payload ch attempt) none [.wrote (.delivery sub ch) ⟨typeEvent, payload⟩]
  | sendFails {x : Copy} {payload : Bytes} {ch : AckChan} {attempt : Nat} :
      DeliverMove s c sub (.deliverSendFails sub) (.sending x payload ch attempt)
        (.leaving x false) none []
  | timeout {x : Copy} {payload : Bytes} {ch : AckChan} {attempt : Nat} :
      DeliverMove s c sub (.deliverTimeout sub) (.waiting x payload ch attempt)
        (Connection.nextAttempt x payload ch attempt) none []

/-- `gracefulClose` goes from the first program counter to the second and changes nothing
    else of its connection. -/
inductive GracefulMove (s : Server) (c : Connection) :
    ConnAction → GracefulPc → GracefulPc → Option Action → List ConnObs → Prop
  | already {order : List SubPtr} : c.muHeld = false → c.closed = true →
      GracefulMove s c (.gracefulStart order) .start .finished none []
  | drain {sub : SubPtr} {call : CallId} {todo : List SubPtr} :
      GracefulMove s c (.gracefulDrain call) (.drain (sub :: todo)) (.drainWait sub call todo)
        (some (.invoke call (.drain s.ctx sub))) []
  -- with an error it goes on to `close`, see `ConnMove.drainFailed`
  | drained {sub : SubPtr} {call : CallId} {todo : List SubPtr} {r : Ret} :
      s.bus.calls call = some (.returned r) → (∀ err, r ≠ .failed err) →
      GracefulMove s c .gracefulDrained (.drainWait sub call todo) (.drain todo) none []
  | lock : c.subscribing = false → GracefulMove s c .gracefulLock (.drain []) .wait none []
  | wait : c.deliveryWG = 0 → GracefulMove s c .gracefulWait .wait .unlock none []
  | unlock : GracefulMove s c .gracefulUnlock .unlock .shutdown none []
  -- no error on the way to `closeTransport` stops it
  | tooLong {err : MsgErr} : encodeShutdown ⟨s.redirect⟩ = .error err →
      GracefulMove s c .gracefulSend .shutdown .closeTransport none []
  | send {payload : Bytes} : encodeShutdown ⟨s.redirect⟩ = .ok payload →
      c.writable ⟨typeShutdown, payload⟩ = true →
      GracefulMove s c .gracefulSend .shutdown .closeTransport none
        [.wrote .graceful ⟨typeShutdown, payload⟩]
  | sendFails : GracefulMove s c .gracefulSendFails .shutdown .closeTransport none []
  | closed : c.closing .graceful = .finished →
      GracefulMove s c .gracefulClosed .closing .finished none []

/-- A call of `close` goes from the first program counter to the second and changes nothing
    else of its connection. -/
inductive CloseMove (s : Server) (c : Connection) (closer : Closer) :
    ConnAction → ClosePc → ClosePc → Option Action → Prop
  | already {order : List SubPtr} : c.muHeld = false → c.closed = true →
      CloseMove s c closer (.closeStart closer order) .start .finished none
  | sub {sub : SubPtr} {call : CallId} {todo : List SubPtr} :
      CloseMove s c closer (.closeSub closer call) (.subs (sub :: todo)) (.wait sub call todo)
        (some (.invoke call (.closeSubscription sub)))
  | subReturn {sub : SubPtr} {call : CallId} {todo : List SubPtr} {r : Ret} :
      s.bus.calls call = some (.returned r) →
      CloseMove s c closer (.closeSubReturn closer) (.wait sub call todo) (.subs todo) none

/-! ## Moves of a connection -/

/-- Every change a goroutine of connection `c` can make. -/
inductive ConnMove (s : Server) (c : Connection) : ConnAction → Out → Prop
  | serve {a : ConnAction} {pc pc' : ServePc} {bus : Option Action} {obs : List ConnObs} :
      c.serve = pc → ServeMove s c a pc pc' bus obs →
      ConnMove s c a ⟨{ c with serve := pc' }, bus, obs⟩
  | connect {frame : Frame} {rest : List Frame} : c.netClosed = false → c.serve = .handshake →
      c.input = frame :: rest →
      ConnMove s c .serveRead
        ⟨{ c with input := rest, serve := connectNext frame }, none, [.read frame]⟩
  | read {frame : Frame} {rest : List Frame} : c.netClosed = false → c.serve = .reading →
      c.input = frame :: rest →
      ConnMove s c .serveRead
        ⟨{ c with input := rest, serve := .handle frame }, none, [.read frame]⟩
  | store {topic : Bytes} {sub : SubPtr} : c.serve = .subscribeStore topic sub →
      c.subs.lookup topic = none →
      ConnMove s c .subscribeStore
        ⟨{ c with subs := c.subs.insert topic sub, serve := .subscribeSpawn sub }, none, []⟩
  | replaced {topic : Bytes} {sub old : SubPtr} {call : CallId} {r : Ret} :
      c.serve = .subscribeReplaceWait topic sub old call →
      s.bus.calls call = some (.returned r) →
      ConnMove s c .subscribeReplaced
        ⟨{ c with subs := c.subs.insert topic sub, serve := .subscribeSpawn sub }, none, []⟩
  | spawn {sub : SubPtr} : c.serve = .subscribeSpawn sub →
      ConnMove s c .subscribeSpawn
        ⟨{ c.setDelivery sub .ranging with
            deliveryWG := c.deliveryWG + 1
            serve := .subscribeUnlock none }, none, []⟩
  | acknowledge {ch : AckChan} {status : UInt8} {acknowledged acknowledged' : Chan UInt8} :
      c.serve = .acknowledgeSend ch status → c.acks[ch]? = some acknowledged →
      acknowledged.send status = .done acknowledged' →
      ConnMove s c .acknowledgeSend
        ⟨{ c with acks := c.acks.set ch acknowledged', serve := .reading }, none, []⟩
  | unsubscribe {frame : Frame} {message : TopicMessage} {sub : SubPtr} :
      c.serve = .handle frame → frame.type = typeUnsubscribe →
      decodeTopic frame.payload = .ok message → c.subs.lookup message.topic = some sub →
      ConnMove s c .serveDispatch
        ⟨{ c with subs := c.subs.erase message.topic, serve := .unsubscribeCall sub }, none, []⟩
  | abort : c.serve = .abort → (c.draining || s.draining) = false →
      ConnMove s c .abort ⟨{ c.setClosing .serve .start with serve := .closing }, none, []⟩
  | deliver {a : ConnAction} {sub : SubPtr} {pc pc' : DeliverPc} {bus : Option Action}
      {obs : List ConnObs} :
      c.deliveries sub = some pc → DeliverMove s c sub a pc pc' bus obs →
      ConnMove s c a ⟨c.setDelivery sub pc', bus, obs⟩
  -- the entry of another delivery with this ID is overwritten
  | register {sub : SubPtr} {x : Copy} {payload : Bytes} :
      c.deliveries sub = some (.registering x) → encodeEvent x.event = .ok payload →
      ConnMove s c (.deliverRegister sub)
        ⟨{ c.setDelivery sub (.sending x payload c.acks.length 1) with
            acks := c.acks ++ [.make 1]
            pendingAck := c.pendingAck.insert x.event.id c.acks.length }, none,
          [.registered sub c.acks.length x]⟩
  | acknowledged {sub : SubPtr} {x : Copy} {payload : Bytes} {ch : AckChan} {attempt : Nat}
      {acknowledged acknowledged' : Chan UInt8} {status : UInt8} :
      c.deliveries sub = some (.waiting x payload ch attempt) →
      c.acks[ch]? = some acknowledged →
      acknowledged.receive = .done (some status, acknowledged') →
      ConnMove s c (.deliverAcknowledged sub)
        ⟨{ c.setDelivery sub (if status = ackDelivered then .leaving x true
              else Connection.nextAttempt x payload ch attempt) with
            acks := c.acks.set ch acknowledged' }, none, []⟩
  -- whoever has made the entry
  | leave {sub : SubPtr} {x : Copy} {ok : Bool} : c.deliveries sub = some (.leaving x ok) →
      ConnMove s c (.deliverLeave sub)
        ⟨{ c.setDelivery sub (if ok then .ranging else .ending) with
            pendingAck := c.pendingAck.erase x.event.id }, none, [.delivered sub x ok]⟩
  | endDelivery {sub : SubPtr} : c.deliveries sub = some .ending →
      ConnMove s c (.deliverEnd sub)
        ⟨{ c.setDelivery sub .ended with deliveryWG := c.deliveryWG - 1 }, none, []⟩
  | graceful {a : ConnAction} {pc pc' : GracefulPc} {bus : Option Action}
      {obs : List ConnObs} :
      c.graceful = pc → GracefulMove s c a pc pc' bus obs →
      ConnMove s c a ⟨{ c with graceful := pc' }, bus, obs⟩
  | gracefulStart {order : List SubPtr} : c.graceful = .start → c.muHeld = false →
      c.closed = false → order.Perm c.stored →
      ConnMove s c (.gracefulStart order)
        ⟨{ c with draining := true, graceful := .drain order }, none, []⟩
  | drainFailed {sub : SubPtr} {call : CallId} {todo : List SubPtr} {err : Err} :
      c.graceful = .drainWait sub call todo → s.bus.calls call = some (.returned (.failed err)) →
      ConnMove s c .gracefulDrained
        ⟨{ c.setClosing .graceful .start with graceful := .closing }, none, []⟩
  -- the subscriptions stay where they are
  | closeTransport : c.graceful = .closeTransport → c.muHeld = false →
      ConnMove s c .gracefulCloseTransport
        ⟨{ c with closed := true, graceful := .closeNet }, none, []⟩
  | gracefulNet : c.graceful = .closeNet →
      ConnMove s c .gracefulCloseNet
        ⟨{ c with netClosed := true, graceful := .finished }, none, []⟩
  | close {a : ConnAction} {closer : Closer} {pc pc' : ClosePc} {bus : Option Action} :
      c.closing closer = pc → CloseMove s c closer a pc pc' bus →
      ConnMove s c a ⟨c.setClosing closer pc', bus, []⟩
  | closeStart {closer : Closer} {order : List SubPtr} : c.closing closer = .start →
      c.muHeld = false → c.closed = false → order.Perm c.stored →
      ConnMove s c (.closeStart closer order)
        ⟨{ c.setClosing closer (.subs order) with closed := true, subs := ∅ }, none, []⟩
  | closeNet {closer : Closer} : c.closing closer = .subs [] →
      ConnMove s c (.closeNet closer)
        ⟨{ c.setClosing closer .finished with netClosed := true }, none, []⟩

/-- A result is what a call of the broker has returned. -/
theorem Bus.result_eq_some {w : Bus} {r : Ret} :
    w.result call = some r ↔ w.calls call = some (.returned r) := by
  unfold Bus.result
  split
  · rename_i r' h
    rw [h]
    simp
  · rename_i h
    constructor
    · intro hr
      cases hr
    · intro hr
      exact absurd hr (h r)

/-! ## Inversion, one function at a time -/

section

variable {s : Server} {c : Connection} {out : Out}

/-- A step that moves `serve` only is a `ServeMove`. -/
private theorem serve_move (hpc : c.serve = pc) (hm : ServeMove s c a pc pc' none obs)
    (h : ({ c with serve := pc' } : Connection).done obs = some out) : ConnMove s c a out := by
  cases h
  exact .serve hpc hm

/-- A step that moves `serve` and invokes the broker is a `ServeMove`. -/
private theorem serve_call {op : Op} (hpc : c.serve = pc)
    (hm : ServeMove s c a pc pc' (some (.invoke call op)) obs)
    (h : ({ c with serve := pc' } : Connection).calling call op obs = some out) :
    ConnMove s c a out := by
  cases h
  exact .serve hpc hm

/-- `ReadFrame` gives the CONNECT of the handshake, or a frame of the loop. -/
private theorem serveRead_move (h : c.serveRead = some out) : ConnMove s c .serveRead out := by
  unfold Connection.serveRead at h
  split at h
  · cases h
  · rename_i hnet
    rw [Bool.not_eq_true] at hnet
    split at h
    · rename_i hpc hin
      cases h
      exact .connect hnet hpc hin
    · rename_i hpc hin
      cases h
      exact .read hnet hpc hin
    · cases h

/-- `ReadFrame` fails in the handshake, or in the loop. -/
private theorem serveReadFails_move (h : c.serveReadFails = some out) :
    ConnMove s c .serveReadFails out := by
  unfold Connection.serveReadFails at h
  split at h
  · exact serve_move ‹_› .handshakeFails h
  · exact serve_move ‹_› .readFails h
  · cases h

/-- `acknowledge` reports a payload that it cannot decode, and drops an ACK that no delivery of
    the connection waits for. -/
private theorem acknowledge_move (hpc : c.serve = .handle frame) (htype : frame.type = typeAck)
    (h : c.acknowledge frame.payload = some out) :
    ConnMove s c .serveDispatch out := by
  unfold Connection.acknowledge at h
  split at h
  · exact serve_move hpc (.ackInvalid htype ‹_›) h
  · rename_i ack hack
    split at h
    · exact serve_move hpc (.ackUnknown htype hack ‹_›) h
    · exact serve_move hpc (.ackKnown htype hack ‹_›) h

/-- `unsubscribe` does nothing for a payload that it cannot decode or a topic that is not there. -/
private theorem unsubscribe_move (hpc : c.serve = .handle frame)
    (htype : frame.type = typeUnsubscribe) (h : c.unsubscribe frame.payload = some out) :
    ConnMove s c .serveDispatch out := by
  unfold Connection.unsubscribe at h
  split at h
  · exact serve_move hpc (.unsubscribeInvalid htype ‹_›) h
  · rename_i message hdec
    split at h
    · exact serve_move hpc (.unsubscribeUnknown htype hdec ‹_›) h
    · cases h
      exact .unsubscribe hpc htype hdec ‹_›

/-- The `switch` on the type of the frame takes one of its six cases. -/
private theorem serveDispatch_move (h : c.serveDispatch = some out) :
    ConnMove s c .serveDispatch out := by
  unfold Connection.serveDispatch at h
  split at h
  · rename_i frame hpc
    split at h
    · exact serve_move hpc (.subscribe ‹_›) h
    split at h
    · exact serve_move hpc (.publish ‹_›) h
    split at h
    · exact acknowledge_move hpc ‹_› h
    split at h
    · exact serve_move hpc (.ping ‹_›) h
    split at h
    · exact unsubscribe_move hpc ‹_› h
    · exact serve_move hpc (.unsupported ‹_› ‹_› ‹_› ‹_› ‹_›) h
  · cases h

/-- `c.deliveryMu.Lock()` passes unless `gracefulClose` holds the mutex. -/
private theorem subscribeLock_move (h : c.subscribeLock = some out) :
    ConnMove s c .subscribeLock out := by
  unfold Connection.subscribeLock at h
  split at h
  · rename_i hpc
    split at h
    · cases h
    · rename_i hfree
      exact serve_move hpc (.subscribeLock (by simpa using hfree)) h
  · cases h

/-- `isDraining` reads `s.draining`. -/
private theorem isDraining_move (h : c.isDraining s.draining = some out) :
    ConnMove s c .isDraining out := by
  unfold Connection.isDraining at h
  split at h
  · exact serve_move ‹_› .isDraining h
  · cases h

/-- `isDraining` returns to `subscribe` or to `publish`, which refuse or go on. -/
private theorem isDrainingConn_move (h : c.isDrainingConn = some out) :
    ConnMove s c .isDrainingConn out := by
  unfold Connection.isDrainingConn at h
  split at h
  · rename_i hpc
    split at h
    · exact serve_move hpc (.subscribeDraining ‹_›) h
    · rename_i hnot
      exact serve_move hpc (.subscribeAllowed (by simpa using hnot)) h
  · rename_i hpc
    split at h
    · exact serve_move hpc (.publishDraining ‹_›) h
    · rename_i hnot
      exact serve_move hpc (.publishAllowed (by simpa using hnot)) h
  · cases h

/-- `subscribe` calls `broker.Subscribe`. -/
private theorem subscribeCall_move (h : c.subscribeCall call = some out) :
    ConnMove s c (.subscribeCall call) out := by
  unfold Connection.subscribeCall at h
  split at h
  · exact serve_call ‹_› .subscribeCall h
  · cases h

/-- `broker.Subscribe` has returned a subscription, or an error. -/
private theorem subscribeReturn_move (h : c.subscribeReturn s.bus = some out) :
    ConnMove s c .subscribeReturn out := by
  unfold Connection.subscribeReturn at h
  split at h
  · rename_i hpc
    split at h
    · rename_i hr
      exact serve_move hpc (.subscribeReturn (Bus.result_eq_some.mp hr)) h
    · rename_i hr
      exact serve_move hpc (.subscribeFailed (Bus.result_eq_some.mp hr)) h
    · cases h
  · cases h

/-- `subscribe` finds a subscription to the topic and replaces it, or stores the new one. -/
private theorem subscribeStore_move (h : c.subscribeStore = some out) :
    ConnMove s c .subscribeStore out := by
  unfold Connection.subscribeStore at h
  split at h
  · rename_i hpc
    split at h
    · exact serve_move hpc (.subscribeOld ‹_›) h
    · cases h
      exact .store hpc ‹_›
  · cases h

/-- `subscribe` calls `Close` of the subscription that it replaces. -/
private theorem subscribeReplace_move (h : c.subscribeReplace call = some out) :
    ConnMove s c (.subscribeReplace call) out := by
  unfold Connection.subscribeReplace at h
  split at h
  · exact serve_call ‹_› .subscribeReplace h
  · cases h

/-- `Close` has returned, and `subscribe` stores the new subscription. -/
private theorem subscribeReplaced_move (h : c.subscribeReplaced s.bus = some out) :
    ConnMove s c .subscribeReplaced out := by
  unfold Connection.subscribeReplaced at h
  split at h
  · rename_i hpc
    split at h
    · rename_i hr
      cases h
      exact .replaced hpc (Bus.result_eq_some.mp hr)
    · cases h
  · cases h

/-- `subscribe` starts the delivery goroutine of the subscription. -/
private theorem subscribeSpawn_move (h : c.subscribeSpawn = some out) :
    ConnMove s c .subscribeSpawn out := by
  unfold Connection.subscribeSpawn at h
  split at h
  · cases h
    exact .spawn ‹_›
  · cases h

/-- `subscribe` returns to the loop, with an error to report or without. -/
private theorem subscribeUnlock_move (h : c.subscribeUnlock = some out) :
    ConnMove s c .subscribeUnlock out := by
  unfold Connection.subscribeUnlock at h
  split at h
  · exact serve_move ‹_› .subscribeDone h
  · exact serve_move ‹_› .subscribeError h
  · cases h

/-- `publish` calls `broker.PublishWithResult`. -/
private theorem publishCall_move (h : c.publishCall call = some out) :
    ConnMove s c (.publishCall call) out := by
  unfold Connection.publishCall at h
  split at h
  · exact serve_call ‹_› .publishCall h
  · cases h

/-- `broker.PublishWithResult` has returned, and `publish` makes the ACK. -/
private theorem publishReturn_move (h : c.publishReturn s.bus = some out) :
    ConnMove s c .publishReturn out := by
  unfold Connection.publishReturn at h
  split at h
  · rename_i hpc
    split at h
    · rename_i hr
      exact serve_move hpc (.publishReturn (Bus.result_eq_some.mp hr)) h
    · cases h
  · cases h

/-- The `select` of `acknowledge` puts the status in the channel, or drops it if one is there. -/
private theorem acknowledgeSend_move (h : c.acknowledgeSend = some out) :
    ConnMove s c .acknowledgeSend out := by
  unfold Connection.acknowledgeSend at h
  split at h
  · rename_i hpc
    split at h
    · rename_i hch
      split at h
      · cases h
        exact .acknowledge hpc hch ‹_›
      · exact serve_move hpc (.ackDropped hch ‹_›) h
      · cases h
    · cases h
  · cases h

/-- `unsubscribe` calls `Close` of the subscription. -/
private theorem unsubscribeCall_move (h : c.unsubscribeCall call = some out) :
    ConnMove s c (.unsubscribeCall call) out := by
  unfold Connection.unsubscribeCall at h
  split at h
  · exact serve_call ‹_› .unsubscribeCall h
  · cases h

/-- `Close` has returned, and `unsubscribe` returns to the loop. -/
private theorem unsubscribeReturn_move (h : c.unsubscribeReturn s.bus = some out) :
    ConnMove s c .unsubscribeReturn out := by
  unfold Connection.unsubscribeReturn at h
  split at h
  · rename_i hpc
    split at h
    · rename_i hr
      exact serve_move hpc (.unsubscribeReturn (Bus.result_eq_some.mp hr)) h
    · cases h
  · cases h

/-- `send` writes the frame of `serve` whole. -/
private theorem serveSend_move (h : c.serveSend = some out) : ConnMove s c .serveSend out := by
  unfold Connection.serveSend at h
  split at h
  · rename_i hpc
    split at h
    · exact serve_move hpc (.send ‹_›) h
    · cases h
  · cases h

/-- `send` returns an error: `publish` reports it, all others ignore it. -/
private theorem serveSendFails_move {text : Bytes} (h : c.serveSendFails text = some out) :
    ConnMove s c (.serveSendFails text) out := by
  unfold Connection.serveSendFails at h
  split at h
  · exact serve_move ‹_› .sendReport h
  · rename_i hne hpc
    exact serve_move hpc (.sendIgnore hne) h
  · cases h

/-- `serve` returns, and closes the connection unless it drains. -/
private theorem abort_move (h : c.abort s.draining = some out) : ConnMove s c .abort out := by
  unfold Connection.abort at h
  split at h
  · rename_i hpc
    split at h
    · exact serve_move hpc (.abortDraining ‹_›) h
    · rename_i hnot
      cases h
      exact .abort hpc (by simpa using hnot)
  · cases h

/-- The `close` that `serve` has called returns. -/
private theorem serveClosed_move (h : c.serveClosed = some out) :
    ConnMove s c .serveClosed out := by
  unfold Connection.serveClosed at h
  split at h
  · rename_i hpc
    split at h
    · exact serve_move hpc (.closed ‹_›) h
    · cases h
  · cases h

/-- The `range` loop over the events receives one, or ends with the channel. -/
private theorem deliverReceive_move (h : c.deliverReceive s.bus sub = some out) :
    ConnMove s c (.deliverReceive sub) out := by
  unfold Connection.deliverReceive at h
  split at h
  · rename_i hpc hs
    split at h
    · cases h
      exact .deliver hpc (.receive hs ‹_›)
    · rename_i hend
      -- a receive gives nothing only from a closed channel
      obtain ⟨hbuf, hcl, -⟩ := Chan.receive_none hend
      cases h
      exact .deliver hpc (.receiveEnd hs hbuf hcl)
    · cases h
    · cases h
  · cases h

/-- `deliver` enters a channel for the event in `c.pendingAck`, if the event has an encoding. -/
private theorem deliverRegister_move (h : c.deliverRegister sub = some out) :
    ConnMove s c (.deliverRegister sub) out := by
  unfold Connection.deliverRegister at h
  split at h
  · rename_i hpc
    split at h
    · cases h
      exact .deliver hpc (.encodeFails ‹_›)
    · cases h
      exact .register hpc ‹_›
  · cases h

/-- `deliver` writes the EVENT frame of an attempt. -/
private theorem deliverSend_move (h : c.deliverSend sub = some out) :
    ConnMove s c (.deliverSend sub) out := by
  unfold Connection.deliverSend at h
  split at h
  · rename_i hpc
    split at h
    · cases h
      exact .deliver hpc (.send ‹_›)
    · cases h
  · cases h

/-- The write of the EVENT frame fails, and `deliver` gives up. -/
private theorem deliverSendFails_move (h : c.deliverSendFails sub = some out) :
    ConnMove s c (.deliverSendFails sub) out := by
  unfold Connection.deliverSendFails at h
  split at h
  · cases h
    exact .deliver ‹_› .sendFails
  · cases h

/-- The `select` of `deliver` receives a status. -/
private theorem deliverAcknowledged_move (h : c.deliverAcknowledged sub = some out) :
    ConnMove s c (.deliverAcknowledged sub) out := by
  unfold Connection.deliverAcknowledged at h
  split at h
  · rename_i hpc
    split at h
    · rename_i hch
      split at h
      · cases h
        exact .acknowledged hpc hch ‹_›
      · cases h
    · cases h
  · cases h

/-- The `select` of `deliver` takes the timer. -/
private theorem deliverTimeout_move (h : c.deliverTimeout sub = some out) :
    ConnMove s c (.deliverTimeout sub) out := by
  unfold Connection.deliverTimeout at h
  split at h
  · cases h
    exact .deliver ‹_› .timeout
  · cases h

/-- `deliver` deletes the entry of its event and returns. -/
private theorem deliverLeave_move (h : c.deliverLeave sub = some out) :
    ConnMove s c (.deliverLeave sub) out := by
  unfold Connection.deliverLeave at h
  split at h
  · cases h
    exact .leave ‹_›
  · cases h

/-- The delivery goroutine ends with `c.deliveryWG.Done()`. -/
private theorem deliverEnd_move (h : c.deliverEnd sub = some out) :
    ConnMove s c (.deliverEnd sub) out := by
  unfold Connection.deliverEnd at h
  split at h
  · cases h
    exact .endDelivery ‹_›
  · cases h

/-- `gracefulClose` returns on a closed connection, or marks it as draining and copies the
    subscriptions. -/
private theorem gracefulStart_move (h : c.gracefulStart order = some out) :
    ConnMove s c (.gracefulStart order) out := by
  unfold Connection.gracefulStart at h
  split at h
  · rename_i hpc
    split at h
    · cases h
    rename_i hmu
    rw [Bool.not_eq_true] at hmu
    split at h
    · cases h
      exact .graceful hpc (.already hmu ‹_›)
    split at h
    · rename_i hopen hperm
      cases h
      exact .gracefulStart hpc hmu (by simpa using hopen) hperm
    · cases h
  · cases h

/-- `gracefulClose` calls `Drain` of the next subscription. -/
private theorem gracefulDrain_move (h : c.gracefulDrain s.ctx call = some out) :
    ConnMove s c (.gracefulDrain call) out := by
  unfold Connection.gracefulDrain at h
  split at h
  · cases h
    exact .graceful ‹_› .drain
  · cases h

/-- `Drain` has returned: an error makes `gracefulClose` close the connection. -/
private theorem gracefulDrained_move (h : c.gracefulDrained s.bus = some out) :
    ConnMove s c .gracefulDrained out := by
  unfold Connection.gracefulDrained at h
  split at h
  · rename_i hpc
    split at h
    · rename_i hr
      cases h
      exact .drainFailed hpc (Bus.result_eq_some.mp hr)
    · rename_i r hne hr
      cases h
      exact .graceful hpc (.drained (Bus.result_eq_some.mp hr) hne)
    · cases h
  · cases h

/-- `gracefulClose` locks `c.deliveryMu`, unless `subscribe` holds it. -/
private theorem gracefulLock_move (h : c.gracefulLock = some out) :
    ConnMove s c .gracefulLock out := by
  unfold Connection.gracefulLock at h
  split at h
  · rename_i hpc
    split at h
    · cases h
    · rename_i hfree
      cases h
      exact .graceful hpc (.lock (by simpa using hfree))
  · cases h

/-- `c.deliveryWG.Wait()` returns when no delivery goroutine is left. -/
private theorem gracefulWait_move (h : c.gracefulWait = some out) :
    ConnMove s c .gracefulWait out := by
  unfold Connection.gracefulWait at h
  split at h
  · rename_i hpc
    split at h
    · cases h
      exact .graceful hpc (.wait ‹_›)
    · cases h
  · cases h

/-- `gracefulClose` unlocks `c.deliveryMu`. -/
private theorem gracefulUnlock_move (h : c.gracefulUnlock = some out) :
    ConnMove s c .gracefulUnlock out := by
  unfold Connection.gracefulUnlock at h
  split at h
  · cases h
    exact .graceful ‹_› .unlock
  · cases h

/-- `gracefulClose` writes the SHUTDOWN frame, if the redirect has an encoding. -/
private theorem gracefulSend_move (h : c.gracefulSend s.redirect = some out) :
    ConnMove s c .gracefulSend out := by
  unfold Connection.gracefulSend at h
  split at h
  · rename_i hpc
    split at h
    · cases h
      exact .graceful hpc (.tooLong ‹_›)
    · rename_i henc
      split at h
      · cases h
        exact .graceful hpc (.send henc ‹_›)
      · cases h
  · cases h

/-- The write of the SHUTDOWN frame fails, which `gracefulClose` ignores. -/
private theorem gracefulSendFails_move (h : c.gracefulSendFails = some out) :
    ConnMove s c .gracefulSendFails out := by
  unfold Connection.gracefulSendFails at h
  split at h
  · cases h
    exact .graceful ‹_› .sendFails
  · cases h

/-- `closeTransport` sets `c.closed`. -/
private theorem gracefulCloseTransport_move (h : c.gracefulCloseTransport = some out) :
    ConnMove s c .gracefulCloseTransport out := by
  unfold Connection.gracefulCloseTransport at h
  split at h
  · rename_i hpc
    split at h
    · cases h
    · rename_i hmu
      cases h
      exact .closeTransport hpc (by simpa using hmu)
  · cases h

/-- `closeTransport` closes the socket. -/
private theorem gracefulCloseNet_move (h : c.gracefulCloseNet = some out) :
    ConnMove s c .gracefulCloseNet out := by
  unfold Connection.gracefulCloseNet at h
  split at h
  · cases h
    exact .gracefulNet ‹_›
  · cases h

/-- The `close` that `gracefulClose` has called returns. -/
private theorem gracefulClosed_move (h : c.gracefulClosed = some out) :
    ConnMove s c .gracefulClosed out := by
  unfold Connection.gracefulClosed at h
  split at h
  · rename_i hpc
    split at h
    · cases h
      exact .graceful hpc (.closed ‹_›)
    · cases h
  · cases h

/-- `close` returns on a closed connection, or sets `c.closed` and takes the subscriptions. -/
private theorem closeStart_move (h : c.closeStart closer order = some out) :
    ConnMove s c (.closeStart closer order) out := by
  unfold Connection.closeStart at h
  split at h
  · rename_i hpc
    split at h
    · cases h
    rename_i hmu
    rw [Bool.not_eq_true] at hmu
    split at h
    · cases h
      exact .close hpc (.already hmu ‹_›)
    split at h
    · rename_i hopen hperm
      cases h
      exact .closeStart hpc hmu (by simpa using hopen) hperm
    · cases h
  · cases h

/-- `close` calls `Close` of the next subscription. -/
private theorem closeSub_move (h : c.closeSub closer call = some out) :
    ConnMove s c (.closeSub closer call) out := by
  unfold Connection.closeSub at h
  split at h
  · cases h
    exact .close ‹_› .sub
  · cases h

/-- `Close` of the subscription has returned. -/
private theorem closeSubReturn_move (h : c.closeSubReturn s.bus closer = some out) :
    ConnMove s c (.closeSubReturn closer) out := by
  unfold Connection.closeSubReturn at h
  split at h
  · rename_i hpc
    split at h
    · rename_i hr
      cases h
      exact .close hpc (.subReturn (Bus.result_eq_some.mp hr))
    · cases h
  · cases h

/-- `close` closes the socket. -/
private theorem closeNet_move (h : c.closeNet closer = some out) :
    ConnMove s c (.closeNet closer) out := by
  unfold Connection.closeNet at h
  split at h
  · cases h
    exact .closeNet ‹_›
  · cases h

end

/-- Every step of a connection is one of the moves. -/
theorem connStep_move {s : Server} {c : Connection} {out : Out} (h : s.connStep c a = some out) :
    ConnMove s c a out := by
  cases a with
  | serveRead => exact serveRead_move h
  | serveReadFails => exact serveReadFails_move h
  | serveDispatch => exact serveDispatch_move h
  | subscribeLock => exact subscribeLock_move h
  | isDraining => exact isDraining_move h
  | isDrainingConn => exact isDrainingConn_move h
  | subscribeCall => exact subscribeCall_move h
  | subscribeReturn => exact subscribeReturn_move h
  | subscribeStore => exact subscribeStore_move h
  | subscribeReplace => exact subscribeReplace_move h
  | subscribeReplaced => exact subscribeReplaced_move h
  | subscribeSpawn => exact subscribeSpawn_move h
  | subscribeUnlock => exact subscribeUnlock_move h
  | publishCall => exact publishCall_move h
  | publishReturn => exact publishReturn_move h
  | acknowledgeSend => exact acknowledgeSend_move h
  | unsubscribeCall => exact unsubscribeCall_move h
  | unsubscribeReturn => exact unsubscribeReturn_move h
  | serveSend => exact serveSend_move h
  | serveSendFails => exact serveSendFails_move h
  | abort => exact abort_move h
  | serveClosed => exact serveClosed_move h
  | deliverReceive => exact deliverReceive_move h
  | deliverRegister => exact deliverRegister_move h
  | deliverSend => exact deliverSend_move h
  | deliverSendFails => exact deliverSendFails_move h
  | deliverAcknowledged => exact deliverAcknowledged_move h
  | deliverTimeout => exact deliverTimeout_move h
  | deliverLeave => exact deliverLeave_move h
  | deliverEnd => exact deliverEnd_move h
  | gracefulStart => exact gracefulStart_move h
  | gracefulDrain => exact gracefulDrain_move h
  | gracefulDrained => exact gracefulDrained_move h
  | gracefulLock => exact gracefulLock_move h
  | gracefulWait => exact gracefulWait_move h
  | gracefulUnlock => exact gracefulUnlock_move h
  | gracefulSend => exact gracefulSend_move h
  | gracefulSendFails => exact gracefulSendFails_move h
  | gracefulCloseTransport => exact gracefulCloseTransport_move h
  | gracefulCloseNet => exact gracefulCloseNet_move h
  | gracefulClosed => exact gracefulClosed_move h
  | closeStart => exact closeStart_move h
  | closeSub => exact closeSub_move h
  | closeSubReturn => exact closeSubReturn_move h
  | closeNet => exact closeNet_move h

/-! ## Where a request leads -/

/-- `serve` is about to write an ERROR frame, or has done with the request. -/
inductive ServePc.Reports : ServePc → Prop
  | error {text payload : Bytes} {after : AfterSend} : encodeError ⟨text⟩ = .ok payload →
      Reports (.send ⟨typeError, payload⟩ after)
  | reading : Reports .reading
  | abort : Reports .abort

/-- What follows the write of a frame is no request. -/
theorem AfterSend.reports_pc (after : AfterSend) : after.pc.Reports := by
  cases after with
  | loop => exact .reading
  | report => exact .reading
  | quit => exact .abort

/-- `sendError` writes an ERROR frame, or nothing if the text has no encoding. -/
theorem reports_sendError (text : Bytes) (after : AfterSend) : (sendError text after).Reports := by
  unfold sendError
  split
  · exact .error ‹_›
  · exact after.reports_pc

/-- A first frame is no request. -/
theorem reports_connectNext (frame : Frame) : (connectNext frame).Reports := by
  unfold connectNext
  split
  · exact reports_sendError _ _
  · split
    · exact reports_sendError _ _
    · exact .reading

/-- A SUBSCRIBE is reported as an error, or goes on to `c.deliveryMu.Lock()` with its topic. -/
theorem subscribeNext_cases (payload : Bytes) :
    (subscribeNext payload).Reports ∨ ∃ message, decodeTopic payload = .ok message ∧
      subscribeNext payload = .subscribeLock message.topic := by
  unfold subscribeNext
  split
  · exact .inl (reports_sendError _ _)
  · split
    · exact .inl (reports_sendError _ _)
    · exact .inr ⟨_, ‹_›, rfl⟩

/-- A PUBLISH is reported as an error, or goes on to the call of the broker. -/
theorem publishNext_cases (payload : Bytes) :
    (publishNext payload).Reports ∨ ∃ message, decodePublish payload = .ok message ∧
      publishNext payload = .publishCall message := by
  unfold publishNext
  split
  · exact .inl (reports_sendError _ _)
  · split
    · exact .inl (reports_sendError _ _)
    · exact .inr ⟨_, ‹_›, rfl⟩

/-- An ACK without an encoding is reported as an error; any other is written. -/
theorem publishReply_cases (ack : AckMessage) :
    (publishReply ack).Reports ∨ ∃ payload, encodeAck ack = .ok payload ∧
      publishReply ack = .send ⟨typeAck, payload⟩ .report := by
  unfold publishReply
  split
  · exact .inl (reports_sendError _ _)
  · exact .inr ⟨_, ‹_›, rfl⟩

end EventBus
