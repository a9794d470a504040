import EventBus.Native.Client

/-!
# The connection manager

Model of `transport/tcp/connection_manager.go`. A `ConnectionManager` has the goroutine of
`NewConnectionManager`, which goes on as that of `run`, any number of calls of its methods,
the body of `Close`, and the clients it has dialed. The steps are the critical sections under
`c.mu`, the single channel operations, and the steps of the clients.

`Dial` may succeed or fail at any time, and a timer may fire at any time; how long the delays
are is left out.
-/

namespace EventBus

/-- The identity of a client: its position among those that `Dial` has returned. -/
abbrev ClientId := Nat

/-- The identity of a call of a method of the manager. -/
abbrev ManagerCall := Nat

/-- The errors the manager returns. -/
inductive ManagerErr where
  /-- `ErrNoBrokerAvailable` -/
  | noBrokerAvailable
  /-- `ErrClientClosed` -/
  | closed
  | client (err : ClientErr)
  /-- The error of `rand.Read`. -/
  | random (text : Bytes)
  | ctx (err : CtxErr)
deriving DecidableEq, Repr

/-- `err.Error()`. -/
def ManagerErr.text : ManagerErr → Bytes
  | .noBrokerAvailable => ascii "no broker is currently available"
  | .closed => ClientErr.closed.text
  | .client err => err.text
  | .random text => text
  | .ctx err => (Err.ctx err).text

/-- What a method returns. -/
inductive ManagerRet where
  | ok
  | failed (err : ManagerErr)
deriving DecidableEq, Repr

/-! ## Program counters -/

/-- Where `connect` stands; `endpoints` are those it has still to try. -/
inductive ConnectPc where
  /-- Before the `c.mu` section that copies `c.endpoints`. -/
  | start
  /-- At the head of the loop over the endpoints. -/
  | dial (endpoints : List Bytes)
  /-- Before the `c.mu` section that sets `c.current`. -/
  | install (client : ClientId) (endpoints : List Bytes)
  /-- At the head of the loop over the topics. -/
  | subscribe (client : ClientId) (topics endpoints : List Bytes)
  /-- In `client.Subscribe(topic)`. -/
  | subscribeWait (client : ClientId) (topic : Bytes) (call : ClientCall)
      (topics endpoints : List Bytes)
  /-- In `client.Close()`. -/
  | close (client : ClientId) (endpoints : List Bytes)
  /-- Before the `c.mu` section that resets `c.current`. -/
  | clear (client : ClientId) (endpoints : List Bytes)
deriving DecidableEq, Repr

/-- Where the goroutine of `NewConnectionManager` and `run` stands. -/
inductive MainPc where
  /-- In `connect`, called by `connectUntilAvailable` if `starting`, else by `reconnect`. -/
  | connect (starting : Bool) (pc : ConnectPc)
  /-- At the `select` on a timer, in the same function. -/
  | timer (starting : Bool)
  /-- `NewConnectionManager` has returned an error. -/
  | failed (err : ManagerErr)
  /-- At the head of the loop of `run`. -/
  | loop
  /-- In `watch`, at the outer `select`. -/
  | watch (client : ClientId)
  /-- In `watch`, at the inner `select`. -/
  | forward (client : ClientId) (event : Event)
  /-- In `watch`, at a receive from `client.Shutdowns()` alone. -/
  | last (client : ClientId)
  /-- `watch` has returned. -/
  | watched (client : ClientId) (redirect : Bytes) (graceful : Bool)
  /-- At the `select` that puts the redirect on `c.shutdowns`. -/
  | notify (client : ClientId) (redirect : Bytes)
  /-- Before the `c.mu` section that resets `c.current`. -/
  | release (client : ClientId)
  /-- In `client.Close()`. -/
  | close (client : ClientId)
  /-- In `reconnect`, at the look at `c.done`. -/
  | check
  /-- At the deferred `close(c.shutdowns)`. -/
  | closeShutdowns
  /-- At the deferred `close(c.events)`. -/
  | closeEvents
  | finished
deriving DecidableEq, Repr

/-- How far `Close` has got; `c.once` lets one call run its body. -/
inductive ManagerClosing where
  | fresh
  /-- `c.done` is closed. -/
  | done
  /-- In `client.Close()`. -/
  | client (client : ClientId)
  | closed
deriving DecidableEq, Repr

/-- What a method does with the result of the client's method. -/
inductive AfterMethod where
  | reply
  /-- As in `Publish`: return on success, else go on. -/
  | publish (event : Event) (attempt : Nat)
deriving DecidableEq, Repr

/-- Where a call of a method stands. -/
inductive ManagerPc where
  /-- In `Subscribe`, before the `c.mu` section. -/
  | subscribe (topic : Bytes)
  /-- In `Acknowledge`, before the `c.mu` section. -/
  | acknowledge (eventID : Bytes)
  /-- In `Publish`, before the `c.mu` section. -/
  | publish (event : Event) (attempt : Nat)
  /-- At the call of the client's method. -/
  | method (client : ClientId) (op : ClientOp) (after : AfterMethod)
  /-- In the client's method. -/
  | wait (client : ClientId) (op : ClientOp) (call : ClientCall) (after : AfterMethod)
  /-- In `Publish`, at the `select`. -/
  | pause (event : Event) (attempt : Nat)
  | returned (ret : ManagerRet)
deriving DecidableEq

/-! ## State -/

/-- The fields of `ConnectionManager`, its goroutines and the clients it has dialed. -/
structure ConnectionManager where
  endpoints : List Bytes
  clientID : Bytes
  current : Option ClientId
  topics : AList fun _ : Bytes => Unit
  events : Chan Event
  shutdowns : Chan Bytes
  closing : ManagerClosing
  /-- The context of `NewConnectionManager`. -/
  ctx : Ctx
  main : MainPc
  calls : ManagerCall → Option ManagerPc
  clients : List Client

/-- `NewConnectionManager` up to its call of `connectUntilAvailable`. -/
def newConnectionManager (ctx : Ctx) (endpoints : List Bytes) (clientID : Bytes) :
    ConnectionManager where
  endpoints := endpoints
  clientID := clientID
  current := none
  topics := ∅
  events := .make 64
  shutdowns := .make 1
  closing := .fresh
  ctx := ctx
  main := if endpoints = [] then .failed .noBrokerAvailable else .connect true .start
  calls := fun _ => none
  clients := []

/-- A call of a method. -/
inductive ManagerOp where
  | subscribe (topic : Bytes)
  | acknowledge (eventID : Bytes)
  /-- `random` is what `rand.Read` yields, should it be called. -/
  | publish (event : Event) (random : Except Bytes (Vector UInt8 16))
deriving DecidableEq

/-- What a step of the manager does that a run remembers. -/
inductive ManagerObs where
  | client (client : ClientId) (o : ClientObs)
  | dialed (client : ClientId) (endpoint : Bytes)
  /-- `connect` sets `c.current` and copies `c.topics`. -/
  | installed (client : ClientId) (topics : List Bytes)
  /-- `connect` returns success. -/
  | connected (client : ClientId)
  /-- `Subscribe` enters its topic in `c.topics` and reads `c.current`. -/
  | entered (call : ManagerCall) (topic : Bytes) (client : Option ClientId)
  /-- `watch` puts an event on `c.events`. -/
  | forwarded (client : ClientId) (event : Event)
  /-- `watch` returns. -/
  | watched (client : ClientId) (redirect : Bytes) (graceful : Bool)
  | preferred (endpoint : Bytes)
  | invoked (call : ManagerCall) (op : ManagerOp)
  | returned (call : ManagerCall) (ret : ManagerRet)
deriving DecidableEq

/-! ## Steps -/

/-- One step of `connect`, with the choices it makes. -/
inductive ConnectAction where
  | copy
  | dial
  | dialFails
  | exhausted
  /-- `order` is the iteration order over `c.topics`. -/
  | install (order : List Bytes)
  | subscribe (call : ClientCall)
  | subscribed
  | complete
  | close
  | closed
  | clear
deriving DecidableEq, Repr

/-- One step of the manager. -/
inductive ManagerAction where
  /-- A step of a client that the manager does not make it take. -/
  | client (client : ClientId) (a : ClientAction)
  | connect (a : ConnectAction)
  | timer
  /-- The `select` on a timer ends with `ctx.Done()`. -/
  | timerCtx (err : CtxErr)
  /-- The `select` on a timer ends with `c.done`. -/
  | timerDone
  | loop
  | watchEvent
  | watchShutdown
  | watchDone
  /-- `case <-c.done` of a `select` in `watch`. -/
  | watchStop
  | forward
  | last
  | handOff
  | notify
  | release
  | closeClient
  | clientClosed
  | check
  | closeShutdowns
  | closeEvents
  /-- `Close` gets past `c.once` and closes `c.done`. -/
  | close
  | closeCurrent
  | closeBody
  | closeReturn
  | invoke (call : ManagerCall) (op : ManagerOp)
  /-- The `c.mu` section of a method. -/
  | enter (call : ManagerCall)
  | method (call : ManagerCall) (clientCall : ClientCall)
  | result (call : ManagerCall)
  /-- `time.After` in `Publish`. -/
  | retry (call : ManagerCall)
  /-- `case <-c.done` in `Publish`. -/
  | stop (call : ManagerCall)
  /-- The application receives from `c.events`. -/
  | receive
  /-- The application receives from `c.shutdowns`. -/
  | receiveShutdown
deriving DecidableEq

/-- The outcome of a step: the manager, the step it makes a client take, and what it
    reports. -/
structure ManagerOut where
  manager : ConnectionManager
  client : Option (ClientId × ClientAction)
  obs : List ManagerObs

/-- A step of the goroutines of a client, of its server, or of a caller of `Close` elsewhere. -/
def ClientAction.external : ClientAction → Bool
  | .dial _ | .invoke .. | .receive | .receiveShutdown => false
  | _ => true

/-- `attempt++`, and the condition of the loop of `Publish`. -/
def nextPublish (event : Event) (attempt : Nat) : ManagerPc :=
  if attempt + 1 < 50 then .publish event (attempt + 1)
  else .returned (.failed .noBrokerAvailable)

/-- A method up to its first step. -/
def ManagerOp.start : ManagerOp → ManagerPc
  | .subscribe topic => .subscribe topic
  | .acknowledge eventID => .acknowledge eventID
  | .publish event (.ok random) => .publish (event.withID random).withIdempotencyKey 0
  | .publish event (.error text) =>
    if event.id = [] then .returned (.failed (.random text))
    else .publish event.withIdempotencyKey 0

/-- What a method makes of the result of the client's method. -/
def AfterMethod.pc : AfterMethod → ClientRet → ManagerPc
  | .reply, .failed err => .returned (.failed (.client err))
  | .publish event attempt, .failed _ => .pause event attempt
  | _, _ => .returned .ok

namespace ConnectionManager

/-- `c.done` is closed. -/
def isDone (m : ConnectionManager) : Bool :=
  match m.closing with
  | .fresh => false
  | _ => true

/-- `NewConnectionManager` has returned the manager. -/
def started (m : ConnectionManager) : Bool :=
  match m.main with
  | .connect true _ | .timer true | .failed _ => false
  | _ => true

/-- What call `call` of client `client` has returned. -/
def methodResult (m : ConnectionManager) (client : ClientId) (call : ClientCall) :
    Option ClientRet :=
  match m.clients[client]? with
  | some c =>
    match c.calls call with
    | some (.returned ret) => some ret
    | _ => none
  | none => none

/-- `client.Close()` returns: the body of its `c.once` has been run. -/
def isClosed (m : ConnectionManager) (client : ClientId) : Bool :=
  m.clients[client]?.any fun c => c.closing = .closed

/-- The step ends with the manager in this state. -/
def stepped (m : ConnectionManager) (obs : List ManagerObs) : Option ManagerOut :=
  some ⟨m, none, obs⟩

/-- The step makes a client take a step. -/
def stepping (m : ConnectionManager) (client : ClientId) (a : ClientAction)
    (obs : List ManagerObs) : Option ManagerOut :=
  some ⟨m, some (client, a), obs⟩

def goto (m : ConnectionManager) (pc : MainPc) : ConnectionManager := { m with main := pc }

/-! ### connect -/

/-- `Dial`, which succeeds. -/
def dial (m : ConnectionManager) (starting : Bool) (endpoint : Bytes) (rest : List Bytes) :
    Option ManagerOut :=
  { m with
    clients := m.clients ++ [newClient]
    main := .connect starting (.install m.clients.length rest) }.stepping m.clients.length
      (.dial m.clientID) [.dialed m.clients.length endpoint]

/-- A step of `connect` at `pc`. -/
def connectStep (m : ConnectionManager) (starting : Bool) :
    ConnectPc → ConnectAction → Option ManagerOut
  | .start, .copy => (m.goto (.connect starting (.dial m.endpoints))).stepped []
  | .dial (endpoint :: rest), .dial => m.dial starting endpoint rest
  -- `continue` with the next endpoint
  | .dial (_ :: rest), .dialFails => (m.goto (.connect starting (.dial rest))).stepped []
  | .dial [], .exhausted => (m.goto (.timer starting)).stepped []
  | .install client rest, .install order =>
    if order.Perm m.topics.keys then
      { m with
        current := some client
        main := .connect starting (.subscribe client order rest) }.stepped [.installed client order]
    else none
  | .subscribe client (topic :: topics) rest, .subscribe call =>
    (m.goto (.connect starting (.subscribeWait client topic call topics rest))).stepping client
      (.invoke call (.subscribe topic)) []
  | .subscribe client [] _, .complete => (m.goto .loop).stepped [.connected client]
  | .subscribeWait client _ call topics rest, .subscribed =>
    match m.methodResult client call with
    | some (.failed _) => (m.goto (.connect starting (.close client rest))).stepped []
    | some _ => (m.goto (.connect starting (.subscribe client topics rest))).stepped []
    | none => none
  -- a call of `client.Close()` runs the body of `c.once`, or waits until another call has
  | .close client _, .close => m.stepping client .close []
  | .close client rest, .closed =>
    if m.isClosed client then (m.goto (.connect starting (.clear client rest))).stepped []
    else none
  -- here `c.current` is reset whatever it is, unlike in `run`
  | .clear _ rest, .clear =>
    { m with current := none, main := .connect starting (.dial rest) }.stepped []
  | _, _ => none

def connect (m : ConnectionManager) (a : ConnectAction) : Option ManagerOut :=
  match m.main with
  | .connect starting pc => m.connectStep starting pc a
  | _ => none

/-- `timer.C` in `connectUntilAvailable` or `reconnect`. -/
def timer (m : ConnectionManager) : Option ManagerOut :=
  match m.main with
  | .timer true => (m.goto (.connect true .start)).stepped []
  | .timer false => (m.goto .check).stepped []
  | _ => none

def timerCtx (m : ConnectionManager) (err : CtxErr) : Option ManagerOut :=
  match m.main with
  | .timer true => if m.ctx.ends err then (m.goto (.failed (.ctx err))).stepped [] else none
  | _ => none

def timerDone (m : ConnectionManager) : Option ManagerOut :=
  match m.main with
  | .timer false => if m.isDone then (m.goto .closeShutdowns).stepped [] else none
  | _ => none

/-! ### run -/

/-- The `c.mu` section at the head of the loop. -/
def loop (m : ConnectionManager) : Option ManagerOut :=
  match m.main, m.current with
  | .loop, none => (m.goto .check).stepped []
  | .loop, some client => (m.goto (.watch client)).stepped []
  | _, _ => none

/-- `case event, ok := <-client.Events()`. -/
def watchEvent (m : ConnectionManager) : Option ManagerOut :=
  match m.main with
  | .watch client =>
    match m.clients[client]? with
    | some c =>
      match c.events.receive with
      | .done (some event, _) => (m.goto (.forward client event)).stepping client .receive []
      | .done (none, _) => (m.goto (.last client)).stepped []
      | _ => none
    | none => none
  | _ => none

/-- `redirect, ok := <-client.Shutdowns()`, after which `watch` returns. -/
def receiveRedirect (m : ConnectionManager) (client : ClientId) : Option ManagerOut :=
  match m.clients[client]? with
  | some c =>
    match c.shutdowns.receive with
    | .done (some redirect, _) =>
      (m.goto (.watched client redirect true)).stepping client .receiveShutdown
        [.watched client redirect true]
    | .done (none, _) => (m.goto (.watched client [] false)).stepped [.watched client [] false]
    | _ => none
  | none => none

def watchShutdown (m : ConnectionManager) : Option ManagerOut :=
  match m.main with
  | .watch client => m.receiveRedirect client
  | _ => none

def last (m : ConnectionManager) : Option ManagerOut :=
  match m.main with
  | .last client => m.receiveRedirect client
  | _ => none

/-- `case <-client.Done()`. -/
def watchDone (m : ConnectionManager) : Option ManagerOut :=
  match m.main with
  | .watch client =>
    match m.clients[client]? with
    | some c => if c.isDone then (m.goto (.last client)).stepped [] else none
    | none => none
  | _ => none

def watchStop (m : ConnectionManager) : Option ManagerOut :=
  if m.isDone then
    match m.main with
    | .watch client | .forward client _ =>
      (m.goto (.watched client [] false)).stepped [.watched client [] false]
    | _ => none
  else none

/-- `case c.events <- event`. -/
def forward (m : ConnectionManager) : Option ManagerOut :=
  match m.main with
  | .forward client event =>
    match m.events.send event with
    | .done events =>
      { m with events := events, main := .watch client }.stepped [.forwarded client event]
    | _ => none
  | _ => none

def prefer (m : ConnectionManager) (endpoint : Bytes) : ConnectionManager :=
  { m with endpoints := endpoint :: m.endpoints.filter (· ≠ endpoint) }

/-- `run` with the result of `watch`, up to the `select` on `c.shutdowns`. -/
def handOff (m : ConnectionManager) : Option ManagerOut :=
  match m.main with
  | .watched client redirect graceful =>
    if graceful ∧ redirect ≠ [] then
      ((m.prefer redirect).goto (.notify client redirect)).stepped [.preferred redirect]
    else (m.goto (.release client)).stepped []
  | _ => none

/-- The `select` on `c.shutdowns`: a full channel drops the redirect. -/
def notify (m : ConnectionManager) : Option ManagerOut :=
  match m.main with
  | .notify client redirect =>
    match m.shutdowns.send redirect with
    | .done shutdowns => { m with shutdowns := shutdowns, main := .release client }.stepped []
    | .blocked => (m.goto (.release client)).stepped []
    -- only this goroutine closes `c.shutdowns`, at its end
    | .panics => none
  | _ => none

/-- The `c.mu` section after `watch`. -/
def release (m : ConnectionManager) : Option ManagerOut :=
  match m.main with
  | .release client =>
    { m with
      current := if m.current = some client then none else m.current
      main := .close client }.stepped []
  | _ => none

def closeClient (m : ConnectionManager) : Option ManagerOut :=
  match m.main with
  | .close client => m.stepping client .close []
  | _ => none

def clientClosed (m : ConnectionManager) : Option ManagerOut :=
  match m.main with
  | .close client => if m.isClosed client then (m.goto .check).stepped [] else none
  | _ => none

/-- The first `select` of the loop of `reconnect`. -/
def check (m : ConnectionManager) : Option ManagerOut :=
  match m.main with
  | .check =>
    if m.isDone then (m.goto .closeShutdowns).stepped []
    else (m.goto (.connect false .start)).stepped []
  | _ => none

def closeShutdowns (m : ConnectionManager) : Option ManagerOut :=
  match m.main, m.shutdowns.close with
  | .closeShutdowns, .done shutdowns =>
    { m with shutdowns := shutdowns, main := .closeEvents }.stepped []
  | _, _ => none

def closeEvents (m : ConnectionManager) : Option ManagerOut :=
  match m.main, m.events.close with
  | .closeEvents, .done events => { m with events := events, main := .finished }.stepped []
  | _, _ => none

/-! ### Close -/

def close (m : ConnectionManager) : Option ManagerOut :=
  match m.closing with
  -- nobody has the manager before `NewConnectionManager` returns it
  | .fresh => if m.started then { m with closing := .done }.stepped [] else none
  | _ => none

/-- The `c.mu` section of `Close`. -/
def closeCurrent (m : ConnectionManager) : Option ManagerOut :=
  match m.closing, m.current with
  | .done, some client => { m with closing := .client client, current := none }.stepped []
  | .done, none => { m with closing := .closed }.stepped []
  | _, _ => none

def closeBody (m : ConnectionManager) : Option ManagerOut :=
  match m.closing with
  | .client client => m.stepping client .close []
  | _ => none

def closeReturn (m : ConnectionManager) : Option ManagerOut :=
  match m.closing with
  | .client client =>
    if m.isClosed client then { m with closing := .closed }.stepped [] else none
  | _ => none

/-! ### Calls of methods -/

/-- What a call reports when it gets to `pc`. -/
def returnObs (call : ManagerCall) : ManagerPc → List ManagerObs
  | .returned ret => [.returned call ret]
  | _ => []

def setCall (m : ConnectionManager) (call : ManagerCall) (pc : ManagerPc) : ConnectionManager :=
  { m with calls := Function.update m.calls call (some pc) }

/-- The call goes on at `pc`. -/
def gotoCall (m : ConnectionManager) (call : ManagerCall) (pc : ManagerPc)
    (obs : List ManagerObs) : Option ManagerOut :=
  (m.setCall call pc).stepped (obs ++ returnObs call pc)

def invoke (m : ConnectionManager) (call : ManagerCall) (op : ManagerOp) : Option ManagerOut :=
  if m.started then
    match m.calls call with
    | none => m.gotoCall call op.start [.invoked call op]
    | some _ => none
  else none

/-- Where a method goes on that has read `c.current` to call `op` on it. -/
def onCurrent (m : ConnectionManager) (op : ClientOp) : ManagerPc :=
  match m.current with
  | none => .returned (.failed .noBrokerAvailable)
  | some client => .method client op .reply

/-- The `c.mu` section of a method. -/
def enter (m : ConnectionManager) (call : ManagerCall) : Option ManagerOut :=
  match m.calls call with
  | some (.subscribe topic) =>
    { m with topics := m.topics.insert topic () }.gotoCall call (m.onCurrent (.subscribe topic))
      [.entered call topic m.current]
  | some (.acknowledge eventID) => m.gotoCall call (m.onCurrent (.acknowledge eventID)) []
  | some (.publish event attempt) =>
    match m.current with
    | none => m.gotoCall call (.pause event attempt) []
    | some client =>
      -- `event.ID` is not empty, so that the client does not call `rand.Read`
      m.gotoCall call (.method client (.publishWithResult .live event (.error []))
        (.publish event attempt)) []
  | _ => none

/-- The method calls that of the client. -/
def method (m : ConnectionManager) (call : ManagerCall) (clientCall : ClientCall) :
    Option ManagerOut :=
  match m.calls call with
  | some (.method client op after) =>
    (m.setCall call (.wait client op clientCall after)).stepping client (.invoke clientCall op) []
  | _ => none

/-- The client's method has returned. -/
def result (m : ConnectionManager) (call : ManagerCall) : Option ManagerOut :=
  match m.calls call with
  | some (.wait client _ clientCall after) =>
    match m.methodResult client clientCall with
    | some ret => m.gotoCall call (after.pc ret) []
    | none => none
  | _ => none

def retry (m : ConnectionManager) (call : ManagerCall) : Option ManagerOut :=
  match m.calls call with
  | some (.pause event attempt) => m.gotoCall call (nextPublish event attempt) []
  | _ => none

def stop (m : ConnectionManager) (call : ManagerCall) : Option ManagerOut :=
  match m.calls call with
  | some (.pause _ _) =>
    if m.isDone then m.gotoCall call (.returned (.failed .closed)) [] else none
  | _ => none

/-! ### The application -/

def receive (m : ConnectionManager) : Option ManagerOut :=
  match m.events.receive with
  | .done (some _, events) => { m with events := events }.stepped []
  | _ => none

def receiveShutdown (m : ConnectionManager) : Option ManagerOut :=
  match m.shutdowns.receive with
  | .done (some _, shutdowns) => { m with shutdowns := shutdowns }.stepped []
  | _ => none

/-! ### All steps -/

/-- What an action does to the manager. -/
def act (m : ConnectionManager) : ManagerAction → Option ManagerOut
  | .client client a => if a.external then m.stepping client a [] else none
  | .connect a => m.connect a
  | .timer => m.timer
  | .timerCtx err => m.timerCtx err
  | .timerDone => m.timerDone
  | .loop => m.loop
  | .watchEvent => m.watchEvent
  | .watchShutdown => m.watchShutdown
  | .watchDone => m.watchDone
  | .watchStop => m.watchStop
  | .forward => m.forward
  | .last => m.last
  | .handOff => m.handOff
  | .notify => m.notify
  | .release => m.release
  | .closeClient => m.closeClient
  | .clientClosed => m.clientClosed
  | .check => m.check
  | .closeShutdowns => m.closeShutdowns
  | .closeEvents => m.closeEvents
  | .close => m.close
  | .closeCurrent => m.closeCurrent
  | .closeBody => m.closeBody
  | .closeReturn => m.closeReturn
  | .invoke call op => m.invoke call op
  | .enter call => m.enter call
  | .method call clientCall => m.method call clientCall
  | .result call => m.result call
  | .retry call => m.retry call
  | .stop call => m.stop call
  | .receive => m.receive
  | .receiveShutdown => m.receiveShutdown

/-- A step of the manager, with the step of a client that belongs to it. A client that `Dial`
    returns is new in the manager that `act` yields. -/
def step (m : ConnectionManager) (a : ManagerAction) :
    Option (ConnectionManager × List ManagerObs) :=
  match m.act a with
  | some ⟨m, none, obs⟩ => some (m, obs)
  | some ⟨m, some (client, a), obs⟩ =>
    match m.clients[client]? with
    | some c =>
      match c.step a with
      | some (c, os) =>
        some ({ m with clients := m.clients.set client c }, os.map (.client client) ++ obs)
      | none => none
    | none => none
  | none => none

/-- The runs of a manager. -/
def lts (ctx : Ctx) (endpoints : List Bytes) (clientID : Bytes) :
    Lts ConnectionManager ManagerAction ManagerObs where
  init m := m = newConnectionManager ctx endpoints clientID
  step := step

end ConnectionManager

end EventBus
