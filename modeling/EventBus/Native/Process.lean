import EventBus.Native.Server

/-!
# The event-bus process

Model of `cmd/event-bus/main.go`. A `Process` is the TCP server with its broker, the
goroutine that runs `ListenAndServe`, the HTTP control server, the goroutine that waits for
a signal, the calls of `triggerShutdown` and the goroutine of `main` itself.

The server takes the steps of `Server.step`, but for those that belong to its callers: in
this process `triggerShutdown` calls `GracefulShutdown` and closes the broker, and nobody
calls `Server.Close` or subscribes to the broker directly. A listener that is closed refuses
every connection; a connection that a closed server still accepts is closed at once, which
changes nothing here.

When `main` returns, the process is gone and nothing moves any more. The handler of `/state`
only reads, and log lines are left out.
-/

namespace EventBus

/-! ## Flags -/

/-- The flags the modelled code reads, with their defaults. -/
structure Flags where
  queueSize : Int := 128
  cacheSize : Int := 1024
  deduplicationSize : Int := 4096
  drop : Bool := false
  /-- In nanoseconds. -/
  shutdownTimeout : Int := 30000000000
  redirect : Bytes := []

/-- The configuration of the broker. -/
def Flags.config (flags : Flags) : Config where
  queueSize := flags.queueSize
  cacheSize := flags.cacheSize
  deduplicationSize := flags.deduplicationSize
  backpressure := if flags.drop then .drop else .block

/-- `context.WithTimeout(context.Background(), *shutdownTimeout)`. -/
def Flags.shutdownCtx (flags : Flags) : Ctx :=
  if flags.shutdownTimeout ≤ 0 then .done .deadlineExceeded else .live

/-! ## Program counters -/

/-- Where a call of `triggerShutdown` stands. -/
inductive TriggerPc where
  /-- At `shutdownOnce.Do`. -/
  | enter (redirect : Bytes)
  /-- At `server.GracefulShutdown`. -/
  | shutdown (redirect : Bytes)
  /-- In `GracefulShutdown`, at `listener.Close()`. -/
  | closeListener
  /-- In the rest of `GracefulShutdown`. -/
  | shutdownWait
  /-- At `bus.Close()`. -/
  | closeBus
  | closeBusWait (call : CallId)
  /-- At `admin.Shutdown`. -/
  | adminShutdown
  | adminWait
  /-- At `close(shutdownDone)`. -/
  | closeDone
  /-- The function given to `Do` returns. -/
  | leave
  | finished
  /-- `shutdownDone` was closed already. -/
  | panicked
deriving DecidableEq, Repr

/-- `s.listener`. -/
inductive Listener where
  | unset
  | listening
  | closed
deriving DecidableEq, Repr

/-- Where the goroutine of `server.ListenAndServe` stands. -/
inductive AcceptPc where
  /-- At `net.Listen`. -/
  | listen
  /-- At `listener.Accept()`. -/
  | accept
  /-- The result is in `serverDone`. -/
  | returned (failed : Bool)
deriving DecidableEq, Repr

/-- How `main` returns. -/
inductive Exit where
  | serverFailed
  | completed
  | timedOut
deriving DecidableEq, Repr

/-- Where `main` stands. -/
inductive ProcessPc where
  /-- At `<-serverDone`. -/
  | serving
  /-- At the `select`. -/
  | waiting
  | exited (outcome : Exit)
deriving DecidableEq, Repr

/-! ## State -/

structure Process where
  server : Server
  listener : Listener
  accepting : AcceptPc
  /-- `shutdownOnce`. -/
  once : Once
  /-- The calls of `triggerShutdown`. -/
  triggers : List TriggerPc
  /-- The handlers of `/shutdown` that have answered and not returned, by the redirect they
      pass on. -/
  handlers : List Bytes
  /-- The goroutine that waits for a signal has received one. -/
  signalled : Bool
  /-- `admin.Shutdown` has been called. -/
  adminClosed : Bool
  /-- `shutdownDone` is closed. -/
  shutdownDone : Bool
  main : ProcessPc

inductive Method where
  | get
  | post
  | other
deriving DecidableEq, Repr

/-- What a step of the process does that a run remembers. -/
inductive ProcessObs where
  | server (o : ServerObs)
  /-- The handler of `/shutdown` answers a request with this value of `redirect`. -/
  | responded (method : Method) (redirect : Bytes) (status : Nat) (body : Bytes)
  /-- Call `t` of `triggerShutdown` runs the function given to `Do`. -/
  | entered (t : Nat) (redirect : Bytes)
  | shutdownDone
  | exited (outcome : Exit)
deriving DecidableEq, Repr

/-! ## Steps -/

inductive ProcessAction where
  | server (a : ServerAction)
  | listen
  | listenFails
  /-- `Accept` returns an error. -/
  | acceptFails
  /-- A request for `/shutdown`; `redirect` is the value of that query parameter. -/
  | request (method : Method) (redirect : Bytes)
  /-- Handler `i` starts the goroutine of `triggerShutdown` and returns. -/
  | spawn (i : Nat)
  | signal
  | onceDo (t : Nat)
  /-- `order` is the iteration order over `s.conns`. -/
  | gracefulShutdown (t : Nat) (order : List ConnId)
  | closeListener (t : Nat)
  | gracefulReturn (t : Nat)
  | closeBus (t : Nat) (call : CallId)
  | closeBusReturn (t : Nat)
  | adminShutdown (t : Nat)
  | adminReturn (t : Nat)
  | closeDone (t : Nat)
  | onceReturn (t : Nat)
  | mainServed
  | mainDone
  | mainTimeout
deriving DecidableEq, Repr

/-- Steps that the server, its broker and its peers take by themselves. -/
def ServerAction.isInternal : ServerAction → Bool
  | .bus (.invoke ..) | .bus (.receive _) | .gracefulShutdown .. | .close _ => false
  | _ => true

namespace Process

/-- Call `t` of `triggerShutdown` goes on at `pc`. -/
def goto (p : Process) (t : Nat) (pc : TriggerPc) : Process :=
  { p with triggers := p.triggers.set t pc }

/-- A step of the server that the rest of the process allows. -/
def admits (p : Process) (a : ServerAction) : Bool :=
  a.isInternal &&
    match a with
    | .accept _ => p.accepting = .accept
    -- `GracefulShutdown` closes the listener before it calls the broker
    | .beginShutdown _ => !p.triggers.contains .closeListener
    | _ => true

def serverStep (p : Process) (a : ServerAction) : Option (Process × List ProcessObs) :=
  if p.admits a then
    match p.server.step a with
    | some (server, os) => some ({ p with server := server }, os.map .server)
    | none => none
  else none

/-! ### ListenAndServe -/

def listen (p : Process) : Option (Process × List ProcessObs) :=
  match p.accepting with
  | .listen => some ({ p with listener := .listening, accepting := .accept }, [])
  | _ => none

def listenFails (p : Process) : Option (Process × List ProcessObs) :=
  match p.accepting with
  | .listen => some ({ p with accepting := .returned true }, [])
  | _ => none

/-- `Serve` returns nil if the server or the listener has been closed. -/
def acceptFails (p : Process) : Option (Process × List ProcessObs) :=
  match p.accepting with
  | .accept =>
    let closed := p.server.closed || p.listener = .closed
    some ({ p with accepting := .returned !closed }, [])
  | _ => none

/-! ### The control server -/

/-- The handler of `/shutdown`, up to the start of `triggerShutdown`. -/
def request (flags : Flags) (p : Process) (method : Method) (redirect : Bytes) :
    Option (Process × List ProcessObs) :=
  if p.adminClosed then none
  else if method ≠ .post then some (p, [.responded method redirect 405 (ascii "use POST\n")])
  else
    let redirectAddress := if redirect = [] then flags.redirect else redirect
    some ({ p with handlers := p.handlers ++ [redirectAddress] },
      [.responded method redirect 202
        (ascii "\x7b\"status\":\"graceful shutdown started\"\x7d\n")])

def spawn (p : Process) (i : Nat) : Option (Process × List ProcessObs) :=
  match p.handlers[i]? with
  | some redirect =>
    some ({ p with
      handlers := p.handlers.eraseIdx i
      triggers := p.triggers ++ [.enter redirect] }, [])
  | none => none

/-- `<-stop`, and the call of `triggerShutdown`. -/
def signal (flags : Flags) (p : Process) : Option (Process × List ProcessObs) :=
  if p.signalled then none
  else some ({ p with signalled := true, triggers := p.triggers ++ [.enter flags.redirect] }, [])

/-! ### triggerShutdown -/

/-- `shutdownOnce.Do`: the first call runs the function, the others wait for its end. -/
def onceDo (p : Process) (t : Nat) : Option (Process × List ProcessObs) :=
  match p.triggers[t]? with
  | some (.enter redirect) =>
    match p.once with
    | .fresh =>
      some ({ p.goto t (.shutdown redirect) with once := .running }, [.entered t redirect])
    | .running => none
    | .finished => some (p.goto t .finished, [])
  | _ => none

/-- The `s.mu` section of `GracefulShutdown`. -/
def gracefulShutdown (flags : Flags) (p : Process) (t : Nat) (order : List ConnId) :
    Option (Process × List ProcessObs) :=
  match p.triggers[t]? with
  | some (.shutdown redirect) =>
    if p.server.closed then some (p.goto t .closeBus, [])
    else
      match p.server.step (.gracefulShutdown flags.shutdownCtx redirect order) with
      | some (server, os) =>
        -- the listener is closed if `ListenAndServe` has stored it by now
        let pc := if p.listener = .unset then .shutdownWait else .closeListener
        some ({ p.goto t pc with server := server }, os.map .server)
      | none => none
  | _ => none

def closeListener (p : Process) (t : Nat) : Option (Process × List ProcessObs) :=
  match p.triggers[t]? with
  | some .closeListener => some ({ p.goto t .shutdownWait with listener := .closed }, [])
  | _ => none

/-- `GracefulShutdown` returns; its error is only logged. -/
def gracefulReturn (p : Process) (t : Nat) : Option (Process × List ProcessObs) :=
  match p.triggers[t]? with
  | some .shutdownWait =>
    if p.server.ctl = .finished then some (p.goto t .closeBus, []) else none
  | _ => none

def closeBus (p : Process) (t : Nat) (call : CallId) : Option (Process × List ProcessObs) :=
  match p.triggers[t]? with
  | some .closeBus =>
    match p.server.step (.bus (.invoke call .closeBroker)) with
    | some (server, os) =>
      some ({ p.goto t (.closeBusWait call) with server := server }, os.map .server)
    | none => none
  | _ => none

def closeBusReturn (p : Process) (t : Nat) : Option (Process × List ProcessObs) :=
  match p.triggers[t]? with
  | some (.closeBusWait call) =>
    match p.server.bus.result call with
    | some _ => some (p.goto t .adminShutdown, [])
    | none => none
  | _ => none

def adminShutdown (p : Process) (t : Nat) : Option (Process × List ProcessObs) :=
  match p.triggers[t]? with
  | some .adminShutdown => some ({ p.goto t .adminWait with adminClosed := true }, [])
  | _ => none

/-- `admin.Shutdown` returns when no handler runs. -/
def adminReturn (p : Process) (t : Nat) : Option (Process × List ProcessObs) :=
  match p.triggers[t]? with
  | some .adminWait => if p.handlers = [] then some (p.goto t .closeDone, []) else none
  | _ => none

def closeDone (p : Process) (t : Nat) : Option (Process × List ProcessObs) :=
  match p.triggers[t]? with
  | some .closeDone =>
    if p.shutdownDone then some (p.goto t .panicked, [])
    else some ({ p.goto t .leave with shutdownDone := true }, [.shutdownDone])
  | _ => none

def onceReturn (p : Process) (t : Nat) : Option (Process × List ProcessObs) :=
  match p.triggers[t]? with
  | some .leave => some ({ p.goto t .finished with once := .finished }, [])
  | _ => none

/-! ### main -/

/-- `main` returns. -/
def exit (p : Process) (outcome : Exit) : Option (Process × List ProcessObs) :=
  some ({ p with main := .exited outcome }, [.exited outcome])

def mainServed (p : Process) : Option (Process × List ProcessObs) :=
  match p.main, p.accepting with
  | .serving, .returned true => p.exit .serverFailed
  | .serving, .returned false => some ({ p with main := .waiting }, [])
  | _, _ => none

def mainDone (p : Process) : Option (Process × List ProcessObs) :=
  match p.main with
  | .waiting => if p.shutdownDone then p.exit .completed else none
  | _ => none

def mainTimeout (p : Process) : Option (Process × List ProcessObs) :=
  match p.main with
  | .waiting => p.exit .timedOut
  | _ => none

def runningStep (flags : Flags) (p : Process) : ProcessAction → Option (Process × List ProcessObs)
  | .server a => p.serverStep a
  | .listen => p.listen
  | .listenFails => p.listenFails
  | .acceptFails => p.acceptFails
  | .request method redirect => p.request flags method redirect
  | .spawn i => p.spawn i
  | .signal => p.signal flags
  | .onceDo t => p.onceDo t
  | .gracefulShutdown t order => p.gracefulShutdown flags t order
  | .closeListener t => p.closeListener t
  | .gracefulReturn t => p.gracefulReturn t
  | .closeBus t call => p.closeBus t call
  | .closeBusReturn t => p.closeBusReturn t
  | .adminShutdown t => p.adminShutdown t
  | .adminReturn t => p.adminReturn t
  | .closeDone t => p.closeDone t
  | .onceReturn t => p.onceReturn t
  | .mainServed => p.mainServed
  | .mainDone => p.mainDone
  | .mainTimeout => p.mainTimeout

/-- One step of the process, unless `main` has returned. -/
def step (flags : Flags) (p : Process) (a : ProcessAction) : Option (Process × List ProcessObs) :=
  match p.main with
  | .exited _ => none
  | _ => p.runningStep flags a

end Process

/-- The process when `main` waits for `serverDone`. -/
def newProcess (flags : Flags) : Process where
  server := newServer flags.config
  listener := .unset
  accepting := .listen
  once := .fresh
  triggers := []
  handlers := []
  signalled := false
  adminClosed := false
  shutdownDone := false
  main := .serving

/-- The runs of the process. -/
def Process.lts (flags : Flags) : Lts Process ProcessAction ProcessObs where
  init p := p = newProcess flags
  step := Process.step flags

end EventBus
