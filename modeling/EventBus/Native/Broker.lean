import EventBus.ForStd.Chan
import EventBus.ForStd.Lts
import Mathlib.Data.List.AList
import Mathlib.Data.Finset.Card
import Mathlib.Data.List.Perm.Basic
import Mathlib.Logic.Function.Basic

/-!
# The in-memory broker

Model of `broker/broker.go`. A `Bus` is the broker together with every subscription
ever created and every call of the broker's API, in progress or returned. A call is
an activation of `PublishWithResult`, `Subscribe`, `BeginShutdown`, `Close` (of the
broker or of a subscription) or `Drain`, and `Pc` is its program counter.

The steps of a call are the critical sections under `b.mu` and `s.mu`, the single
channel operations and the `sync.WaitGroup` and `sync.Once` operations between them.
An `Action` names the call that moves and resolves the choices Go leaves open: the
order in which a map is iterated, the ready case a `select` takes, the moment a
context is cancelled.

Go strings and byte slices are lists of bytes. The events in queues and in the topic
cache carry the call that published them (`Copy.call`); no step reads that tag.
-/

namespace EventBus

/-- A Go `string` or `[]byte`. -/
abbrev Bytes := List UInt8

/-- The bytes of an ASCII string literal. -/
def ascii (s : String) : Bytes := s.toList.map fun c => UInt8.ofNat c.toNat

/-- The identity of a `*Subscription`: its position among the subscriptions created. -/
abbrev SubPtr := Nat

/-- The identity of one call of the broker's API. -/
abbrev CallId := Nat

/-- What `ctx.Err()` returns once a context is done. -/
inductive CtxErr where
  | canceled
  | deadlineExceeded
deriving DecidableEq, Repr

/-- The state of the context a call was given. `context.Background()` is never done. -/
inductive Ctx where
  | background
  | live
  | done (err : CtxErr)
deriving DecidableEq, Repr

/-- The errors the broker returns. -/
inductive Err where
  | closed
  | draining
  | queueFull
  | subscription
  | ctx (err : CtxErr)
deriving DecidableEq, Repr

/-- `err.Error()`. -/
def Err.text : Err → Bytes
  | .closed => ascii "broker is closed"
  | .draining => ascii "broker is draining"
  | .queueFull => ascii "subscriber queue is full"
  | .subscription => ascii "subscription is closed"
  | .ctx .canceled => ascii "context canceled"
  | .ctx .deadlineExceeded => ascii "context deadline exceeded"

inductive BackpressurePolicy where
  | block
  | drop
deriving DecidableEq, Repr

/-- The unit transported by the broker. -/
structure Event where
  id : Bytes
  idempotencyKey : Bytes
  topic : Bytes
  key : Bytes
  payload : Bytes
deriving DecidableEq, Repr

/-- An event in the topic cache or in a queue, with the call that published it. -/
structure Copy where
  call : CallId
  event : Event
deriving DecidableEq, Repr

structure Config where
  queueSize : Int
  cacheSize : Int
  deduplicationSize : Int
  backpressure : BackpressurePolicy

/-- A configuration as `New` leaves it. -/
structure Limits where
  queueSize : Nat
  cacheSize : Nat
  deduplicationSize : Nat
  backpressure : BackpressurePolicy
  queueSize_pos : 1 ≤ queueSize

/-- The three adjustments `New` makes. -/
def Config.normalise (config : Config) : Limits where
  queueSize := if config.queueSize < 1 then 1 else config.queueSize.toNat
  cacheSize := if config.cacheSize < 0 then 0 else config.cacheSize.toNat
  deduplicationSize :=
    if config.deduplicationSize < 0 then 0 else config.deduplicationSize.toNat
  backpressure := config.backpressure
  queueSize_pos := by split <;> omega

/-- The fields of `Broker`. -/
structure Broker where
  closed : Bool
  draining : Bool
  config : Limits
  sequence : UInt64
  topics : AList fun _ : Bytes => AList fun _ : UInt64 => SubPtr
  cache : AList fun _ : Bytes => List Copy
  dedup : AList fun _ : Bytes => Finset Bytes

/-- A `sync.Once`. -/
inductive Once where
  | fresh
  | running
  | finished
deriving DecidableEq, Repr

/-- The fields of `Subscription`. `done` says that the `done` channel is closed. -/
structure Subscription where
  topic : Bytes
  id : UInt64
  events : Chan Copy
  done : Bool
  once : Once
  closed : Bool
  wg : Nat

/-- What a call returns. An error of `PublishWithResult` comes with `Published`. -/
inductive Ret where
  | published
  | duplicate
  | subscribed (s : SubPtr)
  | ok
  | failed (err : Err)
deriving DecidableEq, Repr

/-- A call of the broker's API with its arguments. -/
inductive Op where
  | publishWithResult (ctx : Ctx) (event : Event)
  | subscribe (topic : Bytes)
  | beginShutdown
  | drain (ctx : Ctx) (s : SubPtr)
  | closeSubscription (s : SubPtr)
  | closeBroker
deriving DecidableEq, Repr

/-- Where a call stands. -/
inductive Pc where
  /-- `PublishWithResult` before its first critical section. -/
  | publish (ev : Event)
  /-- At the head of the fan-out loop; with nothing left, before the second critical section. -/
  | fanOut (ev : Event) (todo : List SubPtr)
  /-- In `s.enqueue`, counted in `s.wg`, before the first `select`. -/
  | enqueueEntered (ev : Event) (s : SubPtr) (todo : List SubPtr)
  /-- In `s.enqueue`, at the `select` of the backpressure policy. -/
  | enqueueSelect (ev : Event) (s : SubPtr) (todo : List SubPtr)
  /-- In `s.enqueue`, returning `err`, before the deferred `s.wg.Done()`. -/
  | enqueueExit (ev : Event) (s : SubPtr) (todo : List SubPtr) (err : Option Err)
  /-- `Subscribe` before its critical section. -/
  | subscribe (topic : Bytes)
  | beginShutdown
  /-- `Drain` about to look at the queue. -/
  | drain (s : SubPtr)
  /-- `Drain` waiting for the ticker or the context. -/
  | drainWait (s : SubPtr)
  /-- `Subscription.Close` before its critical section. -/
  | closeSubscription (s : SubPtr)
  /-- `Broker.Close` before its critical section. -/
  | closeBroker
  /-- At `s.once.Do` in `s.close(drain)`, with `rest` to close afterwards. -/
  | closeOnce (s : SubPtr) (drain : Bool) (rest : List SubPtr)
  /-- Inside `Do`, before the `s.mu` section. -/
  | closeMark (s : SubPtr) (drain : Bool) (rest : List SubPtr)
  /-- At `s.wg.Wait()`. -/
  | closeWait (s : SubPtr) (drain : Bool) (rest : List SubPtr)
  /-- In the loop that empties the queue when `drain` is false. -/
  | closeDiscard (s : SubPtr) (rest : List SubPtr)
  /-- At `close(s.events)`. -/
  | closeEvents (s : SubPtr) (rest : List SubPtr)
  | returned (r : Ret)
  | panicked
deriving DecidableEq, Repr

/-- Where a call goes that still has to close `rest`. -/
def Pc.closeNext : List SubPtr → Pc
  | [] => .returned .ok
  | s :: rest => .closeOnce s false rest

/-- The program counter with which a call starts. -/
def Op.start : Op → Pc
  | .publishWithResult _ ev => .publish ev
  | .subscribe topic => .subscribe topic
  | .beginShutdown => .beginShutdown
  | .drain _ s => .drain s
  | .closeSubscription s => .closeSubscription s
  | .closeBroker => .closeBroker

/-- The context a call is given; calls without one never look at it. -/
def Op.ctx : Op → Ctx
  | .publishWithResult ctx _ => ctx
  | .drain ctx _ => ctx
  | _ => .background

/-- How an event reached a queue: replayed from the topic cache by `Subscribe`, or
    sent by `enqueue`. -/
inductive Route where
  | replay
  | direct
deriving DecidableEq, Repr

/-- The broker, its subscriptions and the calls of its API. -/
structure Bus where
  broker : Broker
  subs : List Subscription
  calls : CallId → Option Pc
  ctxs : CallId → Ctx

/-- `State`, a snapshot of the broker's activity. -/
structure BrokerState where
  closed : Bool
  draining : Bool
  topics : Nat
  subscriptions : Nat
  pendingEvents : Nat
  cachedEvents : Nat
deriving DecidableEq, Repr

/-! ## Critical sections -/

/-- The key a broker deduplicates an event by. -/
def idempotencyKey (event : Event) : Bytes :=
  if event.idempotencyKey ≠ [] then event.idempotencyKey else event.id

namespace Broker

/-- The subscriptions in `b.topics[topic]`. -/
def registered (b : Broker) (topic : Bytes) : List SubPtr :=
  match b.topics.lookup topic with
  | none => []
  | some subscribers => subscribers.entries.map (·.2)

/-- The subscriptions of all topics. -/
def allRegistered (b : Broker) : List SubPtr :=
  b.topics.entries.flatMap fun e => e.2.entries.map (·.2)

/-- `b.cache[topic]`. -/
def cached (b : Broker) (topic : Bytes) : List Copy := (b.cache.lookup topic).getD []

/-- `b.dedup[topic]`. -/
def remembered (b : Broker) (topic : Bytes) : Finset Bytes := (b.dedup.lookup topic).getD ∅

def seen (b : Broker) (topic id : Bytes) : Bool :=
  if id = [] ∨ b.config.deduplicationSize = 0 then false
  else decide (id ∈ b.remembered topic)

/-- `b.remember`, where `oldest` is the key that the iteration over a full
    `b.dedup[topic]` yields first. -/
def remember (b : Broker) (topic id oldest : Bytes) : Option Broker :=
  if id = [] ∨ b.config.deduplicationSize = 0 then some b
  else if b.config.deduplicationSize ≤ (b.remembered topic).card then
    if oldest ∈ b.remembered topic then
      some { b with dedup := b.dedup.insert topic (insert id ((b.remembered topic).erase oldest)) }
    else none
  else some { b with dedup := b.dedup.insert topic (insert id (b.remembered topic)) }

def cacheEvent (b : Broker) (x : Copy) : Broker :=
  if b.config.cacheSize = 0 then b
  else if b.config.cacheSize ≤ (b.cached x.event.topic).length then
    { b with cache := b.cache.insert x.event.topic ((b.cached x.event.topic).tail ++ [x]) }
  else { b with cache := b.cache.insert x.event.topic (b.cached x.event.topic ++ [x]) }

/-- Remove `id` from `b.topics[topic]`, as `Subscription.Close` does. -/
def deregister (b : Broker) (topic : Bytes) (id : UInt64) : Broker :=
  match b.topics.lookup topic with
  | none => b
  | some subscribers =>
    if (subscribers.erase id).entries.isEmpty then { b with topics := b.topics.erase topic }
    else { b with topics := b.topics.insert topic (subscribers.erase id) }

/-- Enter subscription `s` under `id` in `b.topics[topic]`, as `Subscribe` does. -/
def register (b : Broker) (topic : Bytes) (id : UInt64) (s : SubPtr) : Broker :=
  { b with
    sequence := id
    topics := b.topics.insert topic (((b.topics.lookup topic).getD ∅).insert id s) }

/-- Take the first `n` events of `b.cache[topic]`, as `Subscribe` does. -/
def takeCached (b : Broker) (topic : Bytes) (n : Nat) : Broker :=
  if b.cached topic = [] then b
  else if n = (b.cached topic).length then { b with cache := b.cache.erase topic }
  else { b with cache := b.cache.insert topic ((b.cached topic).drop n) }

end Broker

def newSubscription (topic : Bytes) (id : UInt64) (queueSize : Nat) : Subscription where
  topic := topic
  id := id
  events := .make queueSize
  done := false
  once := .fresh
  closed := false
  wg := 0

/-! ## Steps -/

/-- What a step of the bus does that a run remembers. -/
inductive Obs where
  | invoked (c : CallId) (op : Op)
  | returned (c : CallId) (r : Ret)
  /-- `PublishWithResult` copied the subscribers of the topic. -/
  | snapshot (c : CallId) (subscribers : List SubPtr)
  | cached (x : Copy)
  | evicted (x : Copy)
  /-- The event entered the queue of `s`. -/
  | put (s : SubPtr) (x : Copy) (route : Route)
  /-- The consumer of `s` received the event. -/
  | received (s : SubPtr) (x : Copy)
  /-- `s.close(false)` dropped the event from the queue. -/
  | discarded (s : SubPtr) (x : Copy)
  /-- The consumer of `s` saw the end of the channel. -/
  | ended (s : SubPtr)
  | closedDone (s : SubPtr)
  | closedEvents (s : SubPtr)
  /-- A send on, or a close of, a closed channel of `s`. -/
  | panicked (s : SubPtr)
deriving DecidableEq, Repr

/-- What is observed when call `c` gets to a program counter: only that it returns. -/
def Pc.report (c : CallId) : Pc → List Obs
  | .returned r => [.returned c r]
  | _ => []

/-- One step of the bus: the goroutine that moves and the choices it makes. -/
inductive Action where
  | invoke (c : CallId) (op : Op)
  | cancel (c : CallId) (err : CtxErr)
  /-- First critical section of `PublishWithResult`: `order` is the iteration order
      over the subscribers, `oldest` the key `remember` evicts if it has to. -/
  | publishEnter (c : CallId) (order : List SubPtr) (oldest : Bytes)
  | enqueueEnter (c : CallId)
  | enqueueCheck (c : CallId)
  /-- The cases of the policy's `select`. -/
  | enqueueCtx (c : CallId)
  | enqueueDone (c : CallId)
  | enqueueSend (c : CallId)
  | enqueueDefault (c : CallId)
  | enqueueReturn (c : CallId)
  | publishLeave (c : CallId) (oldest : Bytes)
  | subscribe (c : CallId)
  | beginShutdown (c : CallId)
  | drainCheck (c : CallId)
  | drainTick (c : CallId)
  | drainCtx (c : CallId)
  | closeDeregister (c : CallId)
  | closeBroker (c : CallId) (order : List SubPtr)
  | closeOnce (c : CallId)
  | closeMark (c : CallId)
  | closeWait (c : CallId)
  | closeDiscard (c : CallId)
  | closeEvents (c : CallId)
  | receive (s : SubPtr)
deriving DecidableEq, Repr

namespace Bus

def setPc (w : Bus) (c : CallId) (pc : Pc) : Bus :=
  { w with calls := Function.update w.calls c (some pc) }

def setSub (w : Bus) (s : SubPtr) (sub : Subscription) : Bus :=
  { w with subs := w.subs.set s sub }

def setBroker (w : Bus) (b : Broker) : Bus := { w with broker := b }

/-- The call moves on to `pc`. -/
def goto (w : Bus) (c : CallId) (pc : Pc) : Bus × List Obs := (w.setPc c pc, pc.report c)

/-- The call panics on a channel of `s`. -/
def crash (w : Bus) (c : CallId) (s : SubPtr) : Bus × List Obs :=
  (w.setPc c .panicked, [.panicked s])

def invoke (w : Bus) (c : CallId) (op : Op) : Option (Bus × List Obs) :=
  match w.calls c with
  | none =>
    some ({ w.setPc c op.start with ctxs := Function.update w.ctxs c op.ctx }, [.invoked c op])
  | some _ => none

def cancel (w : Bus) (c : CallId) (err : CtxErr) : Option (Bus × List Obs) :=
  if w.ctxs c = .live then
    some ({ w with ctxs := Function.update w.ctxs c (.done err) }, [])
  else none

/-- What `cacheEvent` does to the topic cache, as observations. -/
def cacheObs (b : Broker) (x : Copy) : List Obs :=
  if b.config.cacheSize = 0 then []
  else if b.config.cacheSize ≤ (b.cached x.event.topic).length then
    ((b.cached x.event.topic).take 1).map .evicted ++ [.cached x]
  else [.cached x]

/-- `PublishWithResult` up to the end of its first critical section. -/
def publishEnter (w : Bus) (c : CallId) (order : List SubPtr) (oldest : Bytes) :
    Option (Bus × List Obs) :=
  match w.calls c with
  | some (.publish ev) =>
    if w.broker.closed then some (w.goto c (.returned (.failed .closed)))
    else if w.broker.draining then some (w.goto c (.returned (.failed .draining)))
    else if idempotencyKey ev ≠ [] ∧ w.broker.seen ev.topic (idempotencyKey ev) then
      some (w.goto c (.returned .duplicate))
    else if order.Perm (w.broker.registered ev.topic) then
      -- without a subscriber the event is cached and its key remembered in this section
      if order = [] then
        match (w.broker.cacheEvent ⟨c, ev⟩).remember ev.topic (idempotencyKey ev) oldest with
        | none => none
        | some b =>
          some ((w.setBroker b).setPc c (.returned .published),
            .snapshot c [] :: (cacheObs w.broker ⟨c, ev⟩ ++ [.returned c .published]))
      else some (w.setPc c (.fanOut ev order), [.snapshot c order])
    else none
  | _ => none

/-- The `s.mu` section of `enqueue`. -/
def enqueueEnter (w : Bus) (c : CallId) : Option (Bus × List Obs) :=
  match w.calls c with
  | some (.fanOut ev (s :: todo)) =>
    match w.subs[s]? with
    | some sub =>
      if sub.closed then some (w.goto c (.returned (.failed .subscription)))
      else
        some ((w.setSub s { sub with wg := sub.wg + 1 }).goto c (.enqueueEntered ev s todo))
    | none => none
  | _ => none

/-- The first `select` of `enqueue`. -/
def enqueueCheck (w : Bus) (c : CallId) : Option (Bus × List Obs) :=
  match w.calls c with
  | some (.enqueueEntered ev s todo) =>
    match w.subs[s]? with
    | some sub =>
      if sub.done then some (w.goto c (.enqueueExit ev s todo (some .subscription)))
      else some (w.goto c (.enqueueSelect ev s todo))
    | none => none
  | _ => none

/-- `case <-ctx.Done()`, under `Block` only. -/
def enqueueCtx (w : Bus) (c : CallId) : Option (Bus × List Obs) :=
  match w.calls c, w.ctxs c with
  | some (.enqueueSelect ev s todo), .done err =>
    if w.broker.config.backpressure = .drop then none
    else some (w.goto c (.enqueueExit ev s todo (some (.ctx err))))
  | _, _ => none

/-- `case <-s.done`. -/
def enqueueDone (w : Bus) (c : CallId) : Option (Bus × List Obs) :=
  match w.calls c with
  | some (.enqueueSelect ev s todo) =>
    match w.subs[s]? with
    | some sub =>
      if sub.done then some (w.goto c (.enqueueExit ev s todo (some .subscription)))
      else none
    | none => none
  | _ => none

/-- `case s.events <- event`. -/
def enqueueSend (w : Bus) (c : CallId) : Option (Bus × List Obs) :=
  match w.calls c with
  | some (.enqueueSelect ev s todo) =>
    match w.subs[s]? with
    | some sub =>
      match sub.events.send ⟨c, ev⟩ with
      | .done events =>
        some ((w.setSub s { sub with events := events }).setPc c (.enqueueExit ev s todo none),
          [.put s ⟨c, ev⟩ .direct])
      | .blocked => none
      | .panics => some (w.crash c s)
    | none => none
  | _ => none

/-- `default`, under `Drop` only and when no other case is ready. -/
def enqueueDefault (w : Bus) (c : CallId) : Option (Bus × List Obs) :=
  match w.calls c with
  | some (.enqueueSelect ev s todo) =>
    match w.subs[s]? with
    | some sub =>
      if w.broker.config.backpressure = .drop ∧ sub.done = false ∧
          sub.events.send ⟨c, ev⟩ = .blocked then
        some (w.goto c (.enqueueExit ev s todo (some .queueFull)))
      else none
    | none => none
  | _ => none

/-- The deferred `s.wg.Done()`, and back to the fan-out loop or out of it. -/
def enqueueReturn (w : Bus) (c : CallId) : Option (Bus × List Obs) :=
  match w.calls c with
  | some (.enqueueExit ev s todo err) =>
    match w.subs[s]? with
    | some sub =>
      match err with
      | none => some ((w.setSub s { sub with wg := sub.wg - 1 }).goto c (.fanOut ev todo))
      -- the first error ends the fan-out, and no key is remembered
      | some err =>
        some ((w.setSub s { sub with wg := sub.wg - 1 }).goto c (.returned (.failed err)))
    | none => none
  | _ => none

/-- The second critical section of `PublishWithResult`. -/
def publishLeave (w : Bus) (c : CallId) (oldest : Bytes) : Option (Bus × List Obs) :=
  match w.calls c with
  | some (.fanOut ev []) =>
    match w.broker.remember ev.topic (idempotencyKey ev) oldest with
    | none => none
    | some b => some ((w.setBroker b).goto c (.returned .published))
  | _ => none

/-- `Broker.Subscribe`. The replay loop sends inside the critical section. -/
def subscribe (w : Bus) (c : CallId) : Option (Bus × List Obs) :=
  match w.calls c with
  | some (.subscribe topic) =>
    if w.broker.closed ∨ w.broker.draining then some (w.goto c (.returned (.failed .closed)))
    else
      let id := w.broker.sequence + 1
      let s := newSubscription topic id w.broker.config.queueSize
      let cached := w.broker.cached topic
      let replayCount := min cached.length s.events.cap
      match s.events.sendAll (cached.take replayCount) with
      | .done events =>
        some (({ w with
            broker := (w.broker.register topic id w.subs.length).takeCached topic replayCount
            subs := w.subs ++ [{ s with events := events }] } : Bus).setPc c
              (.returned (.subscribed w.subs.length)),
          (cached.take replayCount).map (.put w.subs.length · .replay) ++
            [.returned c (.subscribed w.subs.length)])
      | .blocked => none
      | .panics => some (w.crash c w.subs.length)
  | _ => none

def beginShutdown (w : Bus) (c : CallId) : Option (Bus × List Obs) :=
  match w.calls c with
  | some .beginShutdown =>
    some ((w.setBroker { w.broker with draining := true }).goto c (.returned .ok))
  | _ => none

/-- The test at the head of the loop of `Drain`. -/
def drainCheck (w : Bus) (c : CallId) : Option (Bus × List Obs) :=
  match w.calls c with
  | some (.drain s) =>
    match w.subs[s]? with
    | some sub =>
      -- `len(s.events)` does not count the event that a consumer has in hand
      if sub.events.buf.length = 0 then some (w.goto c (.closeSubscription s))
      else some (w.goto c (.drainWait s))
    | none => none
  | _ => none

/-- `case <-ticker.C`. -/
def drainTick (w : Bus) (c : CallId) : Option (Bus × List Obs) :=
  match w.calls c with
  | some (.drainWait s) => some (w.goto c (.drain s))
  | _ => none

/-- `case <-ctx.Done()`. -/
def drainCtx (w : Bus) (c : CallId) : Option (Bus × List Obs) :=
  match w.calls c, w.ctxs c with
  | some (.drainWait _), .done err => some (w.goto c (.returned (.failed (.ctx err))))
  | _, _ => none

/-- The critical section of `Subscription.Close`. -/
def closeDeregister (w : Bus) (c : CallId) : Option (Bus × List Obs) :=
  match w.calls c with
  | some (.closeSubscription s) =>
    match w.subs[s]? with
    | some sub =>
      some ((w.setBroker (w.broker.deregister sub.topic sub.id)).goto c (.closeOnce s true []))
    | none => none
  | _ => none

/-- The critical section of `Broker.Close`; `order` is the iteration order. -/
def closeBroker (w : Bus) (c : CallId) (order : List SubPtr) : Option (Bus × List Obs) :=
  match w.calls c with
  | some .closeBroker =>
    -- a second `Close` does not wait for the first
    if w.broker.closed then some (w.goto c (.returned .ok))
    else if order.Perm w.broker.allRegistered then
      some ((w.setBroker { w.broker with closed := true, topics := ∅ }).goto c (.closeNext order))
    else none
  | _ => none

/-- `s.once.Do`: the first caller enters, later callers wait until it has left. -/
def closeOnce (w : Bus) (c : CallId) : Option (Bus × List Obs) :=
  match w.calls c with
  | some (.closeOnce s drain rest) =>
    match w.subs[s]? with
    | some sub =>
      match sub.once with
      | .fresh =>
        some ((w.setSub s { sub with once := .running }).goto c (.closeMark s drain rest))
      | .running => none
      | .finished => some (w.goto c (.closeNext rest))
    | none => none
  | _ => none

/-- The `s.mu` section of `close`: `s.closed = true; close(s.done)`. -/
def closeMark (w : Bus) (c : CallId) : Option (Bus × List Obs) :=
  match w.calls c with
  | some (.closeMark s drain rest) =>
    match w.subs[s]? with
    | some sub =>
      if sub.done then some (w.crash c s)
      else
        some ((w.setSub s { sub with closed := true, done := true }).setPc c
          (.closeWait s drain rest), [.closedDone s])
    | none => none
  | _ => none

/-- `s.wg.Wait()`. -/
def closeWait (w : Bus) (c : CallId) : Option (Bus × List Obs) :=
  match w.calls c with
  | some (.closeWait s drain rest) =>
    match w.subs[s]? with
    | some sub =>
      if sub.wg = 0 then
        some (w.goto c (if drain then .closeEvents s rest else .closeDiscard s rest))
      else none
    | none => none
  | _ => none

/-- One turn of the loop that empties the queue. -/
def closeDiscard (w : Bus) (c : CallId) : Option (Bus × List Obs) :=
  match w.calls c with
  | some (.closeDiscard s rest) =>
    match w.subs[s]? with
    | some sub =>
      match sub.events.receive with
      | .done (some x, events) =>
        some ((w.setSub s { sub with events := events }).setPc c (.closeDiscard s rest),
          [.discarded s x])
      -- a closed channel is always ready: the loop would spin
      | .done (none, _) => some (w.setPc c (.closeDiscard s rest), [])
      | .blocked => some (w.goto c (.closeEvents s rest))
      | .panics => none
    | none => none
  | _ => none

/-- `close(s.events)`, after which `Do` is left. -/
def closeEvents (w : Bus) (c : CallId) : Option (Bus × List Obs) :=
  match w.calls c with
  | some (.closeEvents s rest) =>
    match w.subs[s]? with
    | some sub =>
      match sub.events.close with
      | .done events =>
        let next := (w.setSub s { sub with events := events, once := .finished }).goto c
          (.closeNext rest)
        some (next.1, .closedEvents s :: next.2)
      | .blocked => none
      | .panics => some (w.crash c s)
    | none => none
  | _ => none

/-- A consumer receives from `s.Events()`. -/
def receive (w : Bus) (s : SubPtr) : Option (Bus × List Obs) :=
  match w.subs[s]? with
  | some sub =>
    match sub.events.receive with
    | .done (some x, events) => some (w.setSub s { sub with events := events }, [.received s x])
    | .done (none, _) => some (w, [.ended s])
    | .blocked => none
    | .panics => none
  | none => none

def step (w : Bus) : Action → Option (Bus × List Obs)
  | .invoke c op => w.invoke c op
  | .cancel c err => w.cancel c err
  | .publishEnter c order oldest => w.publishEnter c order oldest
  | .enqueueEnter c => w.enqueueEnter c
  | .enqueueCheck c => w.enqueueCheck c
  | .enqueueCtx c => w.enqueueCtx c
  | .enqueueDone c => w.enqueueDone c
  | .enqueueSend c => w.enqueueSend c
  | .enqueueDefault c => w.enqueueDefault c
  | .enqueueReturn c => w.enqueueReturn c
  | .publishLeave c oldest => w.publishLeave c oldest
  | .subscribe c => w.subscribe c
  | .beginShutdown c => w.beginShutdown c
  | .drainCheck c => w.drainCheck c
  | .drainTick c => w.drainTick c
  | .drainCtx c => w.drainCtx c
  | .closeDeregister c => w.closeDeregister c
  | .closeBroker c order => w.closeBroker c order
  | .closeOnce c => w.closeOnce c
  | .closeMark c => w.closeMark c
  | .closeWait c => w.closeWait c
  | .closeDiscard c => w.closeDiscard c
  | .closeEvents c => w.closeEvents c
  | .receive s => w.receive s

end Bus

/-- `Broker.State`. It reads under `b.mu` and changes nothing. -/
def Bus.state (w : Bus) : BrokerState where
  closed := w.broker.closed
  draining := w.broker.draining
  topics := w.broker.topics.entries.length
  subscriptions := w.broker.topics.entries.foldl (fun n e => n + e.2.entries.length) 0
  pendingEvents := w.broker.allRegistered.foldl
    (fun n s => n + (w.subs[s]?.map (·.events.buf.length)).getD 0) 0
  cachedEvents := w.broker.cache.entries.foldl (fun n e => n + e.2.length) 0

/-- `New(config)`, with no call made yet. -/
def new (config : Config) : Bus where
  broker :=
    { closed := false
      draining := false
      config := config.normalise
      sequence := 0
      topics := ∅
      cache := ∅
      dedup := ∅ }
  subs := []
  calls := fun _ => none
  ctxs := fun _ => .background

/-- The runs of a broker created with `config`. -/
def Bus.lts (config : Config) : Lts Bus Action Obs where
  init w := w = new config
  step := Bus.step

end EventBus
