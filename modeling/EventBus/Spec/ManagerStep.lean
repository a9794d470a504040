import EventBus.Native.ConnectionManager
import EventBus.Spec.ClientStep

/-!
# What a step of the connection manager can do

`MainMove` lists the steps of `NewConnectionManager` and `run`, `CloseBodyMove` those of the
body of `Close`, `MethodMove` those of a call of a method, and `ManagerMove` collects them.
A move says which step a client takes with it, if any; `ManagerEffect` carries that out.

## Key results

- `manager_step_effect`: every step of the manager is one of the effects
- `ConnectionManager.reach_client`: a run of the manager is a run of each of its clients
-/

namespace EventBus

variable {m m' : ConnectionManager} {obs os : List ManagerObs} {client : ClientId}
  {a : ManagerAction} {pc : ManagerPc} {call : ManagerCall} {out : ManagerOut} {o : ManagerObs}
  {clients' : List Client} {taken : Option (ClientId × ClientAction)} {c' : Client}

/-- `watch` may receive from `client.Shutdowns()` and then return. -/
inductive AwaitsRedirect (client : ClientId) : ManagerAction → MainPc → Prop
  | watch : AwaitsRedirect client .watchShutdown (.watch client)
  | last : AwaitsRedirect client .last (.last client)

/-- Every step the goroutine of `NewConnectionManager` and `run` can take. -/
inductive MainMove (m : ConnectionManager) : ManagerAction → MainPc → ManagerOut → Prop
  -- `connect` tries the endpoints one after the other, on a copy of the list
  | copy {starting : Bool} :
      MainMove m (.connect .copy) (.connect starting .start)
        ⟨m.goto (.connect starting (.dial m.endpoints)), none, []⟩
  | dial {starting : Bool} {endpoint : Bytes} {rest : List Bytes} :
      MainMove m (.connect .dial) (.connect starting (.dial (endpoint :: rest)))
        ⟨{ m with
            clients := m.clients ++ [newClient]
            main := .connect starting (.install m.clients.length rest) },
          some (m.clients.length, .dial m.clientID), [.dialed m.clients.length endpoint]⟩
  | dialFails {starting : Bool} {endpoint : Bytes} {rest : List Bytes} :
      MainMove m (.connect .dialFails) (.connect starting (.dial (endpoint :: rest)))
        ⟨m.goto (.connect starting (.dial rest)), none, []⟩
  | exhausted {starting : Bool} :
      MainMove m (.connect .exhausted) (.connect starting (.dial []))
        ⟨m.goto (.timer starting), none, []⟩
  -- the client is current before its topics are subscribed
  | install {starting : Bool} {client : ClientId} {rest order : List Bytes} :
      order.Perm m.topics.keys →
      MainMove m (.connect (.install order)) (.connect starting (.install client rest))
        ⟨{ m with
            current := some client
            main := .connect starting (.subscribe client order rest) }, none,
          [.installed client order]⟩
  | subscribe {starting : Bool} {client : ClientId} {topic : Bytes} {topics rest : List Bytes}
      {call : ClientCall} :
      MainMove m (.connect (.subscribe call))
        (.connect starting (.subscribe client (topic :: topics) rest))
        ⟨m.goto (.connect starting (.subscribeWait client topic call topics rest)),
          some (client, .invoke call (.subscribe topic)), []⟩
  -- all topics of the copy are subscribed; `connect` returns
  | complete {starting : Bool} {client : ClientId} {rest : List Bytes} :
      MainMove m (.connect .complete) (.connect starting (.subscribe client [] rest))
        ⟨m.goto .loop, none, [.connected client]⟩
  -- one refused topic, and the client is closed and the next endpoint tried
  | subscribeFailed {starting : Bool} {client : ClientId} {topic : Bytes} {call : ClientCall}
      {topics rest : List Bytes} {err : ClientErr} :
      m.methodResult client call = some (.failed err) →
      MainMove m (.connect .subscribed)
        (.connect starting (.subscribeWait client topic call topics rest))
        ⟨m.goto (.connect starting (.close client rest)), none, []⟩
  | subscribed {starting : Bool} {client : ClientId} {topic : Bytes} {call : ClientCall}
      {topics rest : List Bytes} {ret : ClientRet} :
      m.methodResult client call = some ret → (∀ err, ret ≠ .failed err) →
      MainMove m (.connect .subscribed)
        (.connect starting (.subscribeWait client topic call topics rest))
        ⟨m.goto (.connect starting (.subscribe client topics rest)), none, []⟩
  | connectClose {starting : Bool} {client : ClientId} {rest : List Bytes} :
      MainMove m (.connect .close) (.connect starting (.close client rest))
        ⟨m, some (client, .close), []⟩
  | connectClosed {starting : Bool} {client : ClientId} {rest : List Bytes} :
      m.isClosed client = true →
      MainMove m (.connect .closed) (.connect starting (.close client rest))
        ⟨m.goto (.connect starting (.clear client rest)), none, []⟩
  -- whichever client is current by now
  | clear {starting : Bool} {client : ClientId} {rest : List Bytes} :
      MainMove m (.connect .clear) (.connect starting (.clear client rest))
        ⟨{ m with current := none, main := .connect starting (.dial rest) }, none, []⟩
  -- the timers of `connectUntilAvailable` (`true`) and of `reconnect` (`false`)
  | retryStart : MainMove m .timer (.timer true) ⟨m.goto (.connect true .start), none, []⟩
  | retryCheck : MainMove m .timer (.timer false) ⟨m.goto .check, none, []⟩
  | timerCtx {err : CtxErr} : m.ctx.ends err = true →
      MainMove m (.timerCtx err) (.timer true) ⟨m.goto (.failed (.ctx err)), none, []⟩
  | timerDone : m.isDone = true →
      MainMove m .timerDone (.timer false) ⟨m.goto .closeShutdowns, none, []⟩
  -- the loop of `run`
  | loopNone : m.current = none → MainMove m .loop .loop ⟨m.goto .check, none, []⟩
  | loopSome {client : ClientId} : m.current = some client →
      MainMove m .loop .loop ⟨m.goto (.watch client), none, []⟩
  -- the `select` of `watch`, with its cases in any order
  | event {client : ClientId} {c : Client} {event : Event} {events : Chan Event} :
      m.clients[client]? = some c → c.events.receive = .done (some event, events) →
      MainMove m .watchEvent (.watch client)
        ⟨m.goto (.forward client event), some (client, .receive), []⟩
  | eventsEnd {client : ClientId} {c : Client} {events : Chan Event} :
      m.clients[client]? = some c → c.events.receive = .done (none, events) →
      MainMove m .watchEvent (.watch client) ⟨m.goto (.last client), none, []⟩
  -- in the `select` or after it
  | redirected {a : ManagerAction} {pc : MainPc} {client : ClientId} {c : Client}
      {redirect : Bytes} {shutdowns : Chan Bytes} :
      AwaitsRedirect client a pc → m.clients[client]? = some c →
      c.shutdowns.receive = .done (some redirect, shutdowns) →
      MainMove m a pc
        ⟨m.goto (.watched client redirect true), some (client, .receiveShutdown),
          [.watched client redirect true]⟩
  | ended {a : ManagerAction} {pc : MainPc} {client : ClientId} {c : Client}
      {shutdowns : Chan Bytes} :
      AwaitsRedirect client a pc → m.clients[client]? = some c →
      c.shutdowns.receive = .done (none, shutdowns) →
      MainMove m a pc ⟨m.goto (.watched client [] false), none, [.watched client [] false]⟩
  | watchDone {client : ClientId} {c : Client} : m.clients[client]? = some c →
      c.isDone = true → MainMove m .watchDone (.watch client) ⟨m.goto (.last client), none, []⟩
  | stop {client : ClientId} : m.isDone = true →
      MainMove m .watchStop (.watch client)
        ⟨m.goto (.watched client [] false), none, [.watched client [] false]⟩
  -- the event in hand is lost
  | stopForward {client : ClientId} {event : Event} : m.isDone = true →
      MainMove m .watchStop (.forward client event)
        ⟨m.goto (.watched client [] false), none, [.watched client [] false]⟩
  | forward {client : ClientId} {event : Event} {events : Chan Event} :
      m.events.send event = .done events →
      MainMove m .forward (.forward client event)
        ⟨{ m with events := events, main := .watch client }, none, [.forwarded client event]⟩
  -- `run` between two clients
  | prefer {client : ClientId} {redirect : Bytes} : redirect ≠ [] →
      MainMove m .handOff (.watched client redirect true)
        ⟨(m.prefer redirect).goto (.notify client redirect), none, [.preferred redirect]⟩
  | keep {client : ClientId} {redirect : Bytes} {graceful : Bool} :
      ¬(graceful = true ∧ redirect ≠ []) →
      MainMove m .handOff (.watched client redirect graceful)
        ⟨m.goto (.release client), none, []⟩
  | notify {client : ClientId} {redirect : Bytes} {shutdowns : Chan Bytes} :
      m.shutdowns.send redirect = .done shutdowns →
      MainMove m .notify (.notify client redirect)
        ⟨{ m with shutdowns := shutdowns, main := .release client }, none, []⟩
  -- the `default` case
  | notifyFull {client : ClientId} {redirect : Bytes} : m.shutdowns.send redirect = .blocked →
      MainMove m .notify (.notify client redirect) ⟨m.goto (.release client), none, []⟩
  | release {client : ClientId} :
      MainMove m .release (.release client)
        ⟨{ m with
            current := if m.current = some client then none else m.current
            main := .close client }, none, []⟩
  | closeClient {client : ClientId} :
      MainMove m .closeClient (.close client) ⟨m, some (client, .close), []⟩
  | clientClosed {client : ClientId} : m.isClosed client = true →
      MainMove m .clientClosed (.close client) ⟨m.goto .check, none, []⟩
  -- `reconnect`, and the end of `run`
  | checkDone : m.isDone = true → MainMove m .check .check ⟨m.goto .closeShutdowns, none, []⟩
  | check : m.isDone = false →
      MainMove m .check .check ⟨m.goto (.connect false .start), none, []⟩
  | closeShutdowns {shutdowns : Chan Bytes} : m.shutdowns.close = .done shutdowns →
      MainMove m .closeShutdowns .closeShutdowns
        ⟨{ m with shutdowns := shutdowns, main := .closeEvents }, none, []⟩
  | closeEvents {events : Chan Event} : m.events.close = .done events →
      MainMove m .closeEvents .closeEvents
        ⟨{ m with events := events, main := .finished }, none, []⟩

/-- Every step of the body of `Close`. -/
inductive CloseBodyMove (m : ConnectionManager) :
    ManagerAction → ManagerClosing → ManagerOut → Prop
  -- nobody has the manager before `NewConnectionManager` returns it
  | close : m.started = true →
      CloseBodyMove m .close .fresh ⟨{ m with closing := .done }, none, []⟩
  | take {client : ClientId} : m.current = some client →
      CloseBodyMove m .closeCurrent .done
        ⟨{ m with closing := .client client, current := none }, none, []⟩
  | takeNone : m.current = none →
      CloseBodyMove m .closeCurrent .done ⟨{ m with closing := .closed }, none, []⟩
  | client {client : ClientId} :
      CloseBodyMove m .closeBody (.client client) ⟨m, some (client, .close), []⟩
  | returned {client : ClientId} : m.isClosed client = true →
      CloseBodyMove m .closeReturn (.client client) ⟨{ m with closing := .closed }, none, []⟩

/-- Every step of a call of a method: where it goes on, the step it makes a client take, and
    what it reports before it returns. -/
inductive MethodMove (m : ConnectionManager) (call : ManagerCall) :
    ManagerAction → ManagerPc → ManagerPc → Option (ClientId × ClientAction) →
    List ManagerObs → Prop
  | subscribe {topic : Bytes} :
      MethodMove m call (.enter call) (.subscribe topic) (m.onCurrent (.subscribe topic)) none
        [.entered call topic m.current]
  | acknowledge {eventID : Bytes} :
      MethodMove m call (.enter call) (.acknowledge eventID) (m.onCurrent (.acknowledge eventID))
        none []
  -- with no client `Publish` waits and tries again
  | publishNone {event : Event} {attempt : Nat} : m.current = none →
      MethodMove m call (.enter call) (.publish event attempt) (.pause event attempt) none []
  | publish {event : Event} {attempt : Nat} {client : ClientId} : m.current = some client →
      MethodMove m call (.enter call) (.publish event attempt)
        (.method client (.publishWithResult .live event (.error [])) (.publish event attempt))
        none []
  | method {client : ClientId} {op : ClientOp} {after : AfterMethod} {clientCall : ClientCall} :
      MethodMove m call (.method call clientCall) (.method client op after)
        (.wait client op clientCall after) (some (client, .invoke clientCall op)) []
  | result {client : ClientId} {op : ClientOp} {after : AfterMethod} {clientCall : ClientCall}
      {ret : ClientRet} : m.methodResult client clientCall = some ret →
      MethodMove m call (.result call) (.wait client op clientCall after) (after.pc ret) none []
  | retry {event : Event} {attempt : Nat} :
      MethodMove m call (.retry call) (.pause event attempt) (nextPublish event attempt) none []
  | stop {event : Event} {attempt : Nat} : m.isDone = true →
      MethodMove m call (.stop call) (.pause event attempt) (.returned (.failed .closed)) none []

/-- The topics after a section of a method that stands at `pc`. -/
def ConnectionManager.recorded (m : ConnectionManager) :
    ManagerPc → AList fun _ : Bytes => Unit
  | .subscribe topic => m.topics.insert topic ()
  | _ => m.topics

/-- Every change an action can make to the manager. -/
inductive ManagerMove (m : ConnectionManager) : ManagerAction → ManagerOut → Prop
  | client {client : ClientId} {a : ClientAction} : a.external = true →
      ManagerMove m (.client client a) ⟨m, some (client, a), []⟩
  | main {a : ManagerAction} {pc : MainPc} {out : ManagerOut} : m.main = pc →
      MainMove m a pc out → ManagerMove m a out
  | close {a : ManagerAction} {closing : ManagerClosing} {out : ManagerOut} :
      m.closing = closing → CloseBodyMove m a closing out → ManagerMove m a out
  | invoke {call : ManagerCall} {op : ManagerOp} : m.started = true → m.calls call = none →
      ManagerMove m (.invoke call op)
        ⟨m.setCall call op.start, none,
          .invoked call op :: ConnectionManager.returnObs call op.start⟩
  | method {a : ManagerAction} {call : ManagerCall} {pc pc' : ManagerPc}
      {client : Option (ClientId × ClientAction)} {obs : List ManagerObs} :
      m.calls call = some pc → MethodMove m call a pc pc' client obs →
      ManagerMove m a
        ⟨{ m with topics := m.recorded pc }.setCall call pc', client,
          obs ++ ConnectionManager.returnObs call pc'⟩
  | receive {event : Event} {events : Chan Event} :
      m.events.receive = .done (some event, events) →
      ManagerMove m .receive ⟨{ m with events := events }, none, []⟩
  | receiveShutdown {redirect : Bytes} {shutdowns : Chan Bytes} :
      m.shutdowns.receive = .done (some redirect, shutdowns) →
      ManagerMove m .receiveShutdown ⟨{ m with shutdowns := shutdowns }, none, []⟩

/-- The step that a client takes along, with what the manager reports of it. -/
inductive ClientsChange (clients : List Client) :
    Option (ClientId × ClientAction) → List Client → List ManagerObs → Prop
  | stay : ClientsChange clients none clients []
  | step {client : ClientId} {a : ClientAction} {c c' : Client} {os : List ClientObs} :
      clients[client]? = some c → c.step a = some (c', os) →
      ClientsChange clients (some (client, a)) (clients.set client c') (os.map (.client client))

/-- Every change a step of the manager can make, with the observations it reports. -/
inductive ManagerEffect (m : ConnectionManager) (a : ManagerAction) :
    ConnectionManager → List ManagerObs → Prop
  | mk {out : ManagerOut} {clients : List Client} {os : List ManagerObs} : ManagerMove m a out →
      ClientsChange out.manager.clients out.client clients os →
      ManagerEffect m a { out.manager with clients := clients } (os ++ out.obs)

/-! ## Every step is a move -/

/-- Every step of `connect` is a move. -/
private theorem connectStep_move {starting : Bool} {pc : ConnectPc} {a : ConnectAction}
    (h : m.connectStep starting pc a = some out) :
    MainMove m (.connect a) (.connect starting pc) out := by
  unfold ConnectionManager.connectStep at h
  -- one case for each arm of `connectStep`, in its order
  split at h
  · cases h
    exact .copy
  · cases h
    exact .dial
  · cases h
    exact .dialFails
  · cases h
    exact .exhausted
  · split at h
    · cases h
      exact .install ‹_›
    · cases h
  · cases h
    exact .subscribe
  · cases h
    exact .complete
  · split at h
    · cases h
      exact .subscribeFailed ‹_›
    · rename_i hok hret
      cases h
      exact .subscribed hret hok
    · cases h
  · cases h
    exact .connectClose
  · split at h
    · cases h
      exact .connectClosed ‹_›
    · cases h
  · cases h
    exact .clear
  · cases h

/-- A step of `connect` is one of the goroutine that runs it. -/
private theorem connect_move {a : ConnectAction} (h : m.connect a = some out) :
    MainMove m (.connect a) m.main out := by
  unfold ConnectionManager.connect at h
  split at h
  · rename_i hpc
    rw [hpc]
    exact connectStep_move h
  · cases h

/-- The timer of `connectUntilAvailable` or of `reconnect` fires, and `connect` is tried again. -/
private theorem timer_move (h : m.timer = some out) : MainMove m .timer m.main out := by
  unfold ConnectionManager.timer at h
  split at h
  · rename_i hpc
    cases h
    exact hpc ▸ .retryStart
  · rename_i hpc
    cases h
    exact hpc ▸ .retryCheck
  · cases h

/-- `NewConnectionManager` gives up with the error of its context. -/
private theorem timerCtx_move {err : CtxErr} (h : m.timerCtx err = some out) :
    MainMove m (.timerCtx err) m.main out := by
  unfold ConnectionManager.timerCtx at h
  split at h
  · rename_i hpc
    split at h
    · cases h
      exact hpc ▸ .timerCtx ‹_›
    · cases h
  · cases h

/-- `reconnect` finds `c.done` closed while it waits for its timer. -/
private theorem timerDone_move (h : m.timerDone = some out) :
    MainMove m .timerDone m.main out := by
  unfold ConnectionManager.timerDone at h
  split at h
  · rename_i hpc
    split at h
    · cases h
      exact hpc ▸ .timerDone ‹_›
    · cases h
  · cases h

/-- `run` takes the current client, or reconnects if there is none. -/
private theorem loop_move (h : m.loop = some out) : MainMove m .loop m.main out := by
  unfold ConnectionManager.loop at h
  split at h
  · rename_i hpc hcur
    cases h
    exact hpc ▸ .loopNone hcur
  · rename_i hpc hcur
    cases h
    exact hpc ▸ .loopSome hcur
  · cases h

/-- `watch` receives an event, or the end of the client's channel. -/
private theorem watchEvent_move (h : m.watchEvent = some out) :
    MainMove m .watchEvent m.main out := by
  unfold ConnectionManager.watchEvent at h
  split at h
  · rename_i hpc
    split at h
    · rename_i hc
      split at h
      · rename_i hrecv
        cases h
        exact hpc ▸ .event hc hrecv
      · rename_i hrecv
        cases h
        exact hpc ▸ .eventsEnd hc hrecv
      · cases h
    · cases h
  · cases h

/-- A receive from `client.Shutdowns()` ends `watch`, with a redirect or without. -/
private theorem receiveRedirect_move {pc : MainPc} (h : m.receiveRedirect client = some out)
    (hpc : AwaitsRedirect client a pc) :
    MainMove m a pc out := by
  unfold ConnectionManager.receiveRedirect at h
  split at h
  · rename_i hc
    split at h
    · rename_i hrecv
      cases h
      exact .redirected hpc hc hrecv
    · rename_i hrecv
      cases h
      exact .ended hpc hc hrecv
    · cases h
  · cases h

/-- `watch` receives from `client.Shutdowns()` in its `select`. -/
private theorem watchShutdown_move (h : m.watchShutdown = some out) :
    MainMove m .watchShutdown m.main out := by
  unfold ConnectionManager.watchShutdown at h
  split at h
  · rename_i hpc
    rw [hpc]
    exact receiveRedirect_move h .watch
  · cases h

/-- `watch` looks at `client.Shutdowns()` once more when the client has ended. -/
private theorem last_move (h : m.last = some out) : MainMove m .last m.main out := by
  unfold ConnectionManager.last at h
  split at h
  · rename_i hpc
    rw [hpc]
    exact receiveRedirect_move h .last
  · cases h

/-- `watch` finds the client done. -/
private theorem watchDone_move (h : m.watchDone = some out) :
    MainMove m .watchDone m.main out := by
  unfold ConnectionManager.watchDone at h
  split at h
  · rename_i hpc
    split at h
    · rename_i hc
      split at h
      · rename_i hdone
        cases h
        exact hpc ▸ .watchDone hc hdone
      · cases h
    · cases h
  · cases h

/-- `watch` finds `c.done` closed, with an event in hand or without. -/
private theorem watchStop_move (h : m.watchStop = some out) :
    MainMove m .watchStop m.main out := by
  unfold ConnectionManager.watchStop at h
  split at h
  · rename_i hdone
    split at h
    · rename_i hpc
      cases h
      exact hpc ▸ .stop hdone
    · rename_i hpc
      cases h
      exact hpc ▸ .stopForward hdone
    · cases h
  · cases h

/-- `watch` puts the event that it has received on `c.events`. -/
private theorem forward_move (h : m.forward = some out) : MainMove m .forward m.main out := by
  unfold ConnectionManager.forward at h
  split at h
  · rename_i hpc
    split at h
    · rename_i hsend
      cases h
      exact hpc ▸ .forward hsend
    · cases h
  · cases h

/-- `run` prefers the endpoint of a redirect; an empty one is as none. -/
private theorem handOff_move (h : m.handOff = some out) : MainMove m .handOff m.main out := by
  unfold ConnectionManager.handOff at h
  split at h
  · rename_i graceful hpc
    split at h
    -- `graceful && redirect != ""`
    · rename_i hgo
      cases h
      rw [hpc]
      obtain ⟨hgraceful, hredirect⟩ := hgo
      subst hgraceful
      exact .prefer hredirect
    · rename_i hstay
      cases h
      exact hpc ▸ .keep hstay
  · cases h

/-- `run` puts the redirect on `c.shutdowns`, or drops it if the channel is full. -/
private theorem notify_move (h : m.notify = some out) : MainMove m .notify m.main out := by
  unfold ConnectionManager.notify at h
  split at h
  · rename_i hpc
    split at h
    · rename_i hsend
      cases h
      exact hpc ▸ .notify hsend
    · rename_i hsend
      cases h
      exact hpc ▸ .notifyFull hsend
    · cases h
  · cases h

/-- `run` resets `c.current` if it is still the client that `watch` has left. -/
private theorem release_move (h : m.release = some out) : MainMove m .release m.main out := by
  unfold ConnectionManager.release at h
  split at h
  · rename_i hpc
    cases h
    exact hpc ▸ .release
  · cases h

/-- `run` calls `Close` of the client. -/
private theorem closeClient_move (h : m.closeClient = some out) :
    MainMove m .closeClient m.main out := by
  unfold ConnectionManager.closeClient at h
  split at h
  · rename_i hpc
    cases h
    exact hpc ▸ .closeClient
  · cases h

/-- `Close` of the client returns. -/
private theorem clientClosed_move (h : m.clientClosed = some out) :
    MainMove m .clientClosed m.main out := by
  unfold ConnectionManager.clientClosed at h
  split at h
  · rename_i hpc
    split at h
    · cases h
      exact hpc ▸ .clientClosed ‹_›
    · cases h
  · cases h

/-- `reconnect` ends if `c.done` is closed, and calls `connect` otherwise. -/
private theorem check_move (h : m.check = some out) : MainMove m .check m.main out := by
  unfold ConnectionManager.check at h
  split at h
  · rename_i hpc
    split at h
    · rename_i hdone
      cases h
      exact hpc ▸ .checkDone hdone
    · rename_i hdone
      cases h
      exact hpc ▸ .check (by simpa using hdone)
  · cases h

/-- `run` closes `c.shutdowns`. -/
private theorem closeShutdowns_move (h : m.closeShutdowns = some out) :
    MainMove m .closeShutdowns m.main out := by
  unfold ConnectionManager.closeShutdowns at h
  split at h
  · rename_i hpc hclose
    cases h
    exact hpc ▸ .closeShutdowns hclose
  · cases h

/-- `run` closes `c.events` and is done. -/
private theorem closeEvents_move (h : m.closeEvents = some out) :
    MainMove m .closeEvents m.main out := by
  unfold ConnectionManager.closeEvents at h
  split at h
  · rename_i hpc hclose
    cases h
    exact hpc ▸ .closeEvents hclose
  · cases h

/-- The first call of `Close` closes `c.done`. -/
private theorem manager_close_move (h : m.close = some out) :
    CloseBodyMove m .close m.closing out := by
  unfold ConnectionManager.close at h
  split at h
  · rename_i hclosing
    split at h
    · cases h
      exact hclosing ▸ .close ‹_›
    · cases h
  · cases h

/-- `Close` takes the current client, if there is one. -/
private theorem closeCurrent_move (h : m.closeCurrent = some out) :
    CloseBodyMove m .closeCurrent m.closing out := by
  unfold ConnectionManager.closeCurrent at h
  split at h
  · rename_i hclosing hcur
    cases h
    exact hclosing ▸ .take hcur
  · rename_i hclosing hcur
    cases h
    exact hclosing ▸ .takeNone hcur
  · cases h

/-- `Close` calls `Close` of the client that it has taken. -/
private theorem closeBody_move (h : m.closeBody = some out) :
    CloseBodyMove m .closeBody m.closing out := by
  unfold ConnectionManager.closeBody at h
  split at h
  · rename_i hclosing
    cases h
    exact hclosing ▸ .client
  · cases h

/-- `Close` of the client has returned, and the body of `c.once` is done. -/
private theorem closeReturn_move (h : m.closeReturn = some out) :
    CloseBodyMove m .closeReturn m.closing out := by
  unfold ConnectionManager.closeReturn at h
  split at h
  · rename_i hclosing
    split at h
    · cases h
      exact hclosing ▸ .returned ‹_›
    · cases h
  · cases h

/-- A method is called, on a manager that `NewConnectionManager` has returned. -/
private theorem manager_invoke_move {op : ManagerOp} (h : m.invoke call op = some out) :
    ManagerMove m (.invoke call op) out := by
  unfold ConnectionManager.invoke at h
  split at h
  · rename_i hstarted
    split at h
    · rename_i hnone
      cases h
      exact .invoke hstarted hnone
    · cases h
  · cases h

/-- A method reads the current client under `c.mu`; `Subscribe` records its topic there. -/
private theorem enter_move (h : m.enter call = some out) :
    ManagerMove m (.enter call) out := by
  unfold ConnectionManager.enter at h
  split at h
  · rename_i hpc
    cases h
    exact .method hpc .subscribe
  · rename_i hpc
    cases h
    exact .method hpc .acknowledge
  · rename_i hpc
    split at h
    · rename_i hcur
      cases h
      exact .method hpc (.publishNone hcur)
    · rename_i hcur
      cases h
      exact .method hpc (.publish hcur)
  · cases h

/-- A method calls the method of the client that it has read. -/
private theorem method_move {clientCall : ClientCall} (h : m.method call clientCall = some out) :
    ManagerMove m (.method call clientCall) out := by
  unfold ConnectionManager.method at h
  split at h
  · rename_i hpc
    cases h
    exact .method hpc .method
  · cases h

/-- The method of the client has returned. -/
private theorem result_move (h : m.result call = some out) :
    ManagerMove m (.result call) out := by
  unfold ConnectionManager.result at h
  split at h
  · rename_i hpc
    split at h
    · rename_i hret
      cases h
      exact .method hpc (.result hret)
    · cases h
  · cases h

/-- The pause of `Publish` is over. -/
private theorem retry_move (h : m.retry call = some out) :
    ManagerMove m (.retry call) out := by
  unfold ConnectionManager.retry at h
  split at h
  · rename_i hpc
    cases h
    exact .method hpc .retry
  · cases h

/-- `Publish` finds `c.done` closed in its pause. -/
private theorem stop_move (h : m.stop call = some out) :
    ManagerMove m (.stop call) out := by
  unfold ConnectionManager.stop at h
  split at h
  · rename_i hpc
    split at h
    · rename_i hdone
      cases h
      exact .method hpc (.stop hdone)
    · cases h
  · cases h

/-- The application receives an event. -/
private theorem manager_receive_move (h : m.receive = some out) :
    ManagerMove m .receive out := by
  unfold ConnectionManager.receive at h
  split at h
  · cases h
    exact .receive ‹_›
  · cases h

/-- The application receives a redirect. -/
private theorem manager_receiveShutdown_move (h : m.receiveShutdown = some out) :
    ManagerMove m .receiveShutdown out := by
  unfold ConnectionManager.receiveShutdown at h
  split at h
  · cases h
    exact .receiveShutdown ‹_›
  · cases h

/-- What an action does to the manager is one of the moves. -/
theorem manager_act_move (h : m.act a = some out) : ManagerMove m a out := by
  cases a with
  | client client a =>
    replace h : (if a.external then m.stepping client a [] else none) = some out := h
    split at h
    · cases h
      exact .client ‹_›
    · cases h
  | connect => exact .main rfl (connect_move h)
  | timer => exact .main rfl (timer_move h)
  | timerCtx => exact .main rfl (timerCtx_move h)
  | timerDone => exact .main rfl (timerDone_move h)
  | loop => exact .main rfl (loop_move h)
  | watchEvent => exact .main rfl (watchEvent_move h)
  | watchShutdown => exact .main rfl (watchShutdown_move h)
  | watchDone => exact .main rfl (watchDone_move h)
  | watchStop => exact .main rfl (watchStop_move h)
  | forward => exact .main rfl (forward_move h)
  | last => exact .main rfl (last_move h)
  | handOff => exact .main rfl (handOff_move h)
  | notify => exact .main rfl (notify_move h)
  | release => exact .main rfl (release_move h)
  | closeClient => exact .main rfl (closeClient_move h)
  | clientClosed => exact .main rfl (clientClosed_move h)
  | check => exact .main rfl (check_move h)
  | closeShutdowns => exact .main rfl (closeShutdowns_move h)
  | closeEvents => exact .main rfl (closeEvents_move h)
  | close => exact .close rfl (manager_close_move h)
  | closeCurrent => exact .close rfl (closeCurrent_move h)
  | closeBody => exact .close rfl (closeBody_move h)
  | closeReturn => exact .close rfl (closeReturn_move h)
  | invoke => exact manager_invoke_move h
  | enter => exact enter_move h
  | method => exact method_move h
  | result => exact result_move h
  | retry => exact retry_move h
  | stop => exact stop_move h
  | receive => exact manager_receive_move h
  | receiveShutdown => exact manager_receiveShutdown_move h

/-- Every step of the manager is one of the effects. -/
theorem manager_step_effect (h : m.step a = some (m', os)) : ManagerEffect m a m' os := by
  unfold ConnectionManager.step at h
  split at h
  · rename_i hact
    cases h
    exact .mk (manager_act_move hact) .stay
  · rename_i hact
    split at h
    · rename_i hc
      split at h
      · rename_i hstep
        cases h
        exact .mk (manager_act_move hact) (.step hc hstep)
      · cases h
    · cases h
  · cases h

/-! ## The clients -/

/-- What client `client` reports. -/
def ManagerObs.client? (client : ClientId) : ManagerObs → Option ClientObs
  | .client client' o => if client' = client then some o else none
  | _ => none

/-- What client `client` reports in a run of the manager. -/
def clientLogOf (client : ClientId) (log : List ManagerObs) : List ClientObs :=
  log.filterMap (ManagerObs.client? client)

/-- A client's part of a longer run. -/
@[simp] theorem clientLogOf_append (client : ClientId) (log log' : List ManagerObs) :
    clientLogOf client (log ++ log') = clientLogOf client log ++ clientLogOf client log' :=
  List.filterMap_append

/-- A client's part of a run is what the manager reports of it. -/
theorem mem_clientLogOf {log : List ManagerObs} {o : ClientObs} :
    o ∈ clientLogOf client log ↔ .client client o ∈ log := by
  constructor
  · intro ho
    obtain ⟨o', hmem, heq⟩ := List.mem_filterMap.mp ho
    cases o' with
    | client client' o' =>
      simp only [ManagerObs.client?, Option.ite_none_right_eq_some, Option.some.injEq] at heq
      obtain ⟨rfl, rfl⟩ := heq
      exact hmem
    | _ => cases heq
  · exact fun ho => List.mem_filterMap.mpr ⟨_, ho, by simp [ManagerObs.client?]⟩

/-- A step of the client is in its part. -/
@[simp] theorem clientLogOf_map_self (client : ClientId) (os : List ClientObs) :
    clientLogOf client (os.map (.client client)) = os := by
  simp [clientLogOf, List.filterMap_map, Function.comp_def, ManagerObs.client?]

/-- A step of another client is not. -/
theorem clientLogOf_map_of_ne {client' : ClientId} (h : client ≠ client') (os : List ClientObs) :
    clientLogOf client (os.map (.client client')) = [] := by
  simp [clientLogOf, List.filterMap_map, Function.comp_def, ManagerObs.client?, h.symm]

/-- A call reports its return when it gets there, and nothing before. -/
@[simp] theorem ConnectionManager.mem_returnObs : o ∈ ConnectionManager.returnObs call pc ↔
      ∃ ret, pc = .returned ret ∧ o = .returned call ret := by
  cases pc <;> simp [ConnectionManager.returnObs]

/-- What a client does is reported with the step of the client only. -/
theorem ManagerMove.no_client (h : ManagerMove m a out) (client : ClientId) (o : ClientObs) :
    .client client o ∉ out.obs := by
  cases h with
  | main _ hm => cases hm <;> simp
  | close _ hm => cases hm <;> simp
  | method _ hm => cases hm <;> simp
  | _ => simp

/-- The manager's own observations are no client's. -/
theorem ManagerMove.clientLogOf_nil (h : ManagerMove m a out) (client : ClientId) :
    clientLogOf client out.obs = [] :=
  List.eq_nil_iff_forall_not_mem.mpr fun o ho => h.no_client client o (mem_clientLogOf.mp ho)

/-- Only `Dial` makes a client. -/
theorem ManagerMove.clients (h : ManagerMove m a out) :
    out.manager.clients = m.clients ∨ (out.manager.clients = m.clients ++ [newClient] ∧
      out.client = some (m.clients.length, .dial m.clientID)) := by
  cases h with
  | main _ hm =>
    cases hm with
    | dial => exact .inr ⟨rfl, rfl⟩
    | _ => exact .inl rfl
  | close _ hm => cases hm <;> exact .inl rfl
  | _ => exact .inl rfl

/-- A step of a client makes none and forgets none. -/
theorem ClientsChange.length_eq {clients : List Client}
    (h : ClientsChange clients taken clients' os) :
    clients'.length = clients.length := by
  cases h with
  | stay => rfl
  | step => exact List.length_set

/-- A client that takes no step stays as it is, and reports nothing. -/
theorem ClientsChange.cases_client {clients : List Client}
    (h : ClientsChange clients taken clients' os) (hc' : clients'[client]? = some c') :
    ∃ c, clients[client]? = some c ∧
      (c' = c ∧ clientLogOf client os = [] ∧ (∀ b, taken ≠ some (client, b)) ∨
        ∃ b, taken = some (client, b) ∧ c.step b = some (c', clientLogOf client os)) := by
  cases h with
  | stay => exact ⟨c', hc', .inl ⟨rfl, rfl, by simp⟩⟩
  | @step taken b c c₁ os hc hstep =>
    obtain ⟨rfl, rfl⟩ | ⟨hne, hold⟩ := List.getElem?_set_cases hc'
    · exact ⟨c, hc, .inr ⟨b, rfl, by rwa [clientLogOf_map_self]⟩⟩
    · refine ⟨c', hold, .inl ⟨rfl, clientLogOf_map_of_ne hne os, ?_⟩⟩
      intro b' heq
      exact hne (Prod.mk.inj (Option.some.inj heq)).1.symm

/-- A step, seen from a client: it stays, it moves, or it is new. -/
theorem ManagerEffect.cases_client (h : ManagerEffect m a m' os)
    (hc' : m'.clients[client]? = some c') :
    (m.clients[client]? = some c' ∧ clientLogOf client os = []) ∨
    (∃ c b, m.clients[client]? = some c ∧ c.step b = some (c', clientLogOf client os)) ∨
    (client = m.clients.length ∧
      newClient.step (.dial m.clientID) = some (c', clientLogOf client os)) := by
  cases h with
  | @mk out clients os hm hch =>
    obtain ⟨c, hc, hcase⟩ := hch.cases_client hc'
    rw [clientLogOf_append, hm.clientLogOf_nil, List.append_nil]
    -- the list has grown if the step is a `Dial`
    obtain hsame | ⟨hnew, htaken⟩ := hm.clients
    · rw [hsame] at hc
      obtain ⟨rfl, hlog, -⟩ | ⟨b, -, hstep⟩ := hcase
      · exact .inl ⟨hc, hlog⟩
      · exact .inr (.inl ⟨c, b, hc, hstep⟩)
    · rw [hnew] at hc
      obtain ⟨rfl, hlog, hnot⟩ | ⟨b, hb, hstep⟩ := hcase
      · -- the new client takes a step, so this is an old one
        obtain hold | ⟨rfl, -⟩ := List.getElem?_concat_cases hc
        · exact .inl ⟨hold, hlog⟩
        · exact absurd htaken (hnot _)
      · obtain ⟨rfl, rfl⟩ := Prod.mk.inj (Option.some.inj (htaken.symm.trans hb))
        obtain hold | ⟨-, rfl⟩ := List.getElem?_concat_cases hc
        · have hlt := (List.getElem?_eq_some_iff.mp hold).1
          omega
        · exact .inr (.inr ⟨rfl, hstep⟩)

/-- No client is forgotten. -/
theorem ManagerEffect.length_le (h : ManagerEffect m a m' os) :
    m.clients.length ≤ m'.clients.length := by
  cases h with
  | mk hm hch =>
    show _ ≤ List.length _
    rw [hch.length_eq]
    obtain hsame | ⟨hnew, -⟩ := hm.clients
    · rw [hsame]
    · rw [hnew, List.length_append]
      omega

/-- A client that does not exist reports nothing. -/
theorem ClientsChange.no_client {clients : List Client}
    (h : ClientsChange clients taken clients' os) (hlen : clients.length ≤ client) :
    clientLogOf client os = [] := by
  cases h with
  | stay => rfl
  | @step taken b c c₁ os hc hstep =>
    refine clientLogOf_map_of_ne (fun heq => ?_) os
    have hlt := (List.getElem?_eq_some_iff.mp hc).1
    exact Nat.not_lt.mpr hlen (heq ▸ hlt)

/-- A client that does not exist after a step has reported nothing in it. -/
theorem ManagerEffect.no_client (h : ManagerEffect m a m' os) (hlen : m'.clients.length ≤ client) :
    clientLogOf client os = [] := by
  cases h with
  | mk hm hch =>
    rw [clientLogOf_append, hm.clientLogOf_nil, List.append_nil]
    exact hch.no_client (hch.length_eq ▸ hlen)

/-! ## A step seen from a call -/

/-- The call that moves is where it has moved to. -/
@[simp] theorem ConnectionManager.setCall_self (m : ConnectionManager) (call : ManagerCall)
    (pc : ManagerPc) : (m.setCall call pc).calls call = some pc := by
  simp [ConnectionManager.setCall]

/-- The other calls stay where they are. -/
theorem ConnectionManager.setCall_of_ne {call' : ManagerCall} (h : call' ≠ call) :
    (m.setCall call pc).calls call' = m.calls call' := by
  simp [ConnectionManager.setCall, h]

/-- What is reported with the step of a client is about the client. -/
theorem ClientsChange.mem_obs {clients : List Client}
    (h : ClientsChange clients taken clients' os) (ho : o ∈ os) :
    ∃ client o', o = .client client o' := by
  cases h with
  | stay => cases ho
  | @step client =>
    obtain ⟨o', -, rfl⟩ := List.mem_map.mp ho
    exact ⟨client, o', rfl⟩

/-- What is not about a client is reported by the manager itself. -/
theorem ClientsChange.mem_own {clients : List Client}
    (h : ClientsChange clients taken clients' os) (ho : o ∈ os ++ obs)
    (hne : ∀ client o', o ≠ .client client o') : o ∈ obs := by
  refine (List.mem_append.mp ho).resolve_left fun hos => ?_
  obtain ⟨client, o', rfl⟩ := h.mem_obs hos
  exact hne client o' rfl

/-- A method move reports a section of `Subscribe`, if anything. -/
theorem MethodMove.mem_obs {pc' : ManagerPc} (h : MethodMove m call a pc pc' taken obs)
    (ho : o ∈ obs) :
    ∃ topic, pc = .subscribe topic ∧ pc' = m.onCurrent (.subscribe topic) ∧ taken = none ∧
      o = .entered call topic m.current := by
  cases h with
  | @subscribe topic => exact ⟨topic, rfl, rfl, rfl, List.mem_singleton.mp ho⟩
  | _ => cases ho

/-- A step, seen from one call: others move, or it is invoked, or it moves. -/
theorem ManagerEffect.cases_call (h : ManagerEffect m a m' os) (call : ManagerCall) :
    (m'.calls call = m.calls call ∧ (∀ op, .invoked call op ∉ os) ∧
      ∀ topic reader, .entered call topic reader ∉ os) ∨
    (∃ op, m.calls call = none ∧ m'.calls call = some op.start ∧
      os = .invoked call op :: ConnectionManager.returnObs call op.start) ∨
    ∃ pc pc' taken obs clients cos, m.calls call = some pc ∧
      MethodMove m call a pc pc' taken obs ∧ ClientsChange m.clients taken clients cos ∧
      m'.calls call = some pc' ∧
      os = cos ++ (obs ++ ConnectionManager.returnObs call pc') := by
  cases h with
  | @mk out clients cos hm hch =>
    cases hm with
    | @invoke call' op _ hnone =>
      by_cases hcall : call = call'
      · subst hcall
        cases hch
        exact .inr (.inl ⟨op, hnone, ConnectionManager.setCall_self _ _ _, rfl⟩)
      · refine .inl ⟨ConnectionManager.setCall_of_ne hcall, fun op ho => ?_, fun _ _ ho => ?_⟩
        · simpa [hcall] using hch.mem_own ho nofun
        · simpa using hch.mem_own ho nofun
    | @method _ call' pc pc' taken obs hpc hmove =>
      by_cases hcall : call = call'
      · subst hcall
        exact .inr (.inr ⟨pc, pc', taken, obs, clients, cos, hpc, hmove, hch,
          ConnectionManager.setCall_self _ _ _, rfl⟩)
      -- another call reports its own section and its own return
      · refine .inl ⟨ConnectionManager.setCall_of_ne hcall, fun op ho => ?_, fun _ _ ho => ?_⟩
        all_goals
          obtain ho | ho := List.mem_append.mp (hch.mem_own ho nofun)
          · obtain ⟨_, -, -, -, heq⟩ := hmove.mem_obs ho
            simp [hcall] at heq
          · simp at ho
    -- `run`, `Close` and the application leave the calls alone
    | main _ hmove =>
      refine .inl ⟨by cases hmove <;> rfl, fun op ho => ?_, fun _ _ ho => ?_⟩ <;>
      · have ho := hch.mem_own ho nofun
        cases hmove <;> simp at ho
    | close _ hmove =>
      refine .inl ⟨by cases hmove <;> rfl, fun op ho => ?_, fun _ _ ho => ?_⟩ <;>
      · have ho := hch.mem_own ho nofun
        cases hmove <;> simp at ho
    | _ =>
      refine .inl ⟨rfl, fun op ho => ?_, fun _ _ ho => ?_⟩ <;>
      · have ho := hch.mem_own ho nofun
        simp at ho

section Reach

variable {ctx : Ctx} {endpoints : List Bytes} {clientID : Bytes}
  {G : ConnectionManager → ManagerAction → Prop} {log : List ManagerObs}

/-- A client that does not exist has reported nothing in the run. -/
theorem ConnectionManager.clientLogOf_eq_nil
    (h : (ConnectionManager.lts ctx endpoints clientID).Reach G log m)
    (hlen : m.clients.length ≤ client) : clientLogOf client log = [] := by
  refine h.invariant (P := fun log m => m.clients.length ≤ client → clientLogOf client log = [])
    (fun _ _ _ => rfl) ?_ hlen
  intro log m a m' os ih _ hstep (hlen : m'.clients.length ≤ client)
  have heff := manager_step_effect hstep
  rw [clientLogOf_append, ih (heff.length_le.trans hlen), heff.no_client hlen, List.append_nil]

/-- A run of the manager is a run of each of its clients. -/
theorem ConnectionManager.reach_client
    (h : (ConnectionManager.lts ctx endpoints clientID).Reach G log m) {c : Client}
    (hc : m.clients[client]? = some c) :
    Client.lts.Reach Lts.Always (clientLogOf client log) c := by
  refine h.induct_reach (P := fun log m => ∀ c, m.clients[client]? = some c →
    Client.lts.Reach Lts.Always (clientLogOf client log) c) ?_ ?_ c hc
  · rintro _ rfl c hc
    cases hc
  intro log m a m' os hr ih _ hstep c' hc'
  rw [clientLogOf_append]
  obtain ⟨hsame, hlog⟩ | ⟨c, b, hc, hb⟩ | ⟨rfl, hb⟩ := (manager_step_effect hstep).cases_client hc'
  · rw [hlog, List.append_nil]
    exact ih c' hsame
  · exact (ih c hc).next (a := b) trivial hb
  · -- `Dial` has made the client in this step, which is the first of its run
    rw [ConnectionManager.clientLogOf_eq_nil hr (Nat.le_refl _), List.nil_append]
    exact ⟨newClient, rfl, .single (a := .dial m.clientID) trivial hb⟩

end Reach

/-! ## Runs -/

/-- `connect` dials the first endpoint, with no topic recorded, and `run` watches the client. -/
def connectRun : List ManagerAction :=
  [.connect .copy, .connect .dial, .connect (.install []), .connect .complete, .loop]

/-- The connection of a client breaks, and its `readLoop` ends up to `close(c.events)`. -/
def breakRun (client : ClientId) : List ManagerAction :=
  [.client client .readFails, .client client .readClose, .client client .closeConn,
    .client client .readClose, .client client .closeShutdowns]

/-- The server sends an event with ID 1 and topic `t`, which `readLoop` puts on `c.events`. -/
def eventFrameRun (client : ClientId) : List ManagerAction :=
  [.client client (.peerSend ⟨typeEvent, [0, 1, 1, 0, 0, 0, 1, 116, 0, 0, 0, 0, 0, 0]⟩),
    .client client .read, .client client .dispatch, .client client .put]

/-- The server sends a redirect to `b`, which `readLoop` puts on `c.shutdowns`. -/
def shutdownFrameRun (client : ClientId) : List ManagerAction :=
  [.client client (.peerSend ⟨typeShutdown, [0, 1, 98]⟩), .client client .read,
    .client client .dispatch, .client client .shutdown]

end EventBus
