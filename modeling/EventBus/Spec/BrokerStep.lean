import EventBus.Native.Broker

/-!
# What a step of the broker can do

`Effect w a w' os` lists every way in which a step of action `a` can change the bus
`w`: the guards under which it is taken, the state it leads to and what it reports.
Steps that only move the program counter of one call are collected in `Quiet`.
Invariants are proved by cases on `Effect` and never unfold `Bus.step`.

## Key results

- `step_effect`: every step of the bus is one of the effects
-/

namespace EventBus

variable {pc' : Pc} {w₁ w' : Bus} {a : Action} {os : List Obs} {o : Obs} {order : List SubPtr}
  {oldest : Bytes}

namespace Bus

/-! ## Fields of updated buses -/

variable (w : Bus) (c c' : CallId) (s : SubPtr) (sub : Subscription) (b : Broker) (pc : Pc)

-- each update changes one field, and the others are as they were
@[simp] theorem setPc_broker : (w.setPc c pc).broker = w.broker := rfl
@[simp] theorem setPc_subs : (w.setPc c pc).subs = w.subs := rfl
@[simp] theorem setPc_ctxs : (w.setPc c pc).ctxs = w.ctxs := rfl
@[simp] theorem setSub_broker : (w.setSub s sub).broker = w.broker := rfl
@[simp] theorem setSub_subs : (w.setSub s sub).subs = w.subs.set s sub := rfl
@[simp] theorem setSub_calls : (w.setSub s sub).calls = w.calls := rfl
@[simp] theorem setSub_ctxs : (w.setSub s sub).ctxs = w.ctxs := rfl
@[simp] theorem setBroker_broker : (w.setBroker b).broker = b := rfl
@[simp] theorem setBroker_subs : (w.setBroker b).subs = w.subs := rfl
@[simp] theorem setBroker_calls : (w.setBroker b).calls = w.calls := rfl
@[simp] theorem setBroker_ctxs : (w.setBroker b).ctxs = w.ctxs := rfl

/-- Moving a call changes its own program counter only. -/
theorem setPc_calls : (w.setPc c pc).calls = Function.update w.calls c (some pc) := rfl

/-- The call that moves is where it has moved to. -/
@[simp] theorem setPc_calls_self : (w.setPc c pc).calls c = some pc := by
  simp [setPc_calls]

/-- The other calls stay where they are. -/
@[simp] theorem setPc_calls_of_ne {c c' : CallId} (h : c' ≠ c) :
    (w.setPc c pc).calls c' = w.calls c' := by
  simp [setPc_calls, h]

/-- The program counters of an updated bus. -/
theorem setPc_calls_cases {w : Bus} {c c' : CallId} {pc : Pc}
    (h : (w.setPc c pc).calls c' = some pc') :
    (c' = c ∧ pc' = pc) ∨ (c' ≠ c ∧ w.calls c' = some pc') := by
  by_cases hc : c' = c
  · subst hc
    rw [setPc_calls_self] at h
    exact .inl ⟨rfl, (Option.some.inj h).symm⟩
  · rw [setPc_calls_of_ne _ _ hc] at h
    exact .inr ⟨hc, h⟩

end Bus

/-! ## Steps that only move a program counter -/

/-- With this action, call `c` may move from the first program counter to the second without
    touching anything else. -/
inductive Quiet (w : Bus) (c : CallId) : Action → Pc → Pc → Prop
  -- `PublishWithResult` returns at its checks
  | publishClosed {order : List SubPtr} {oldest : Bytes} {ev : Event} : w.broker.closed = true →
      Quiet w c (.publishEnter c order oldest) (.publish ev) (.returned (.failed .closed))
  | publishDraining {order : List SubPtr} {oldest : Bytes} {ev : Event} :
      w.broker.draining = true →
      Quiet w c (.publishEnter c order oldest) (.publish ev) (.returned (.failed .draining))
  | publishDuplicate {order : List SubPtr} {oldest : Bytes} {ev : Event} :
      idempotencyKey ev ≠ [] → w.broker.seen ev.topic (idempotencyKey ev) = true →
      Quiet w c (.publishEnter c order oldest) (.publish ev) (.returned .duplicate)
  -- `enqueue` on the way to its `select`, and the cases of the `select` that do not send
  | enqueueClosed {ev : Event} {s : SubPtr} {todo : List SubPtr} {sub : Subscription} :
      w.subs[s]? = some sub → sub.closed = true →
      Quiet w c (.enqueueEnter c) (.fanOut ev (s :: todo)) (.returned (.failed .subscription))
  | enqueueCheckDone {ev : Event} {s : SubPtr} {todo : List SubPtr} {sub : Subscription} :
      w.subs[s]? = some sub → sub.done = true →
      Quiet w c (.enqueueCheck c) (.enqueueEntered ev s todo)
        (.enqueueExit ev s todo (some .subscription))
  | enqueueCheckOpen {ev : Event} {s : SubPtr} {todo : List SubPtr} {sub : Subscription} :
      w.subs[s]? = some sub → sub.done = false →
      Quiet w c (.enqueueCheck c) (.enqueueEntered ev s todo) (.enqueueSelect ev s todo)
  | enqueueCtx {ev : Event} {s : SubPtr} {todo : List SubPtr} {err : CtxErr} :
      w.ctxs c = .done err → w.broker.config.backpressure ≠ .drop →
      Quiet w c (.enqueueCtx c) (.enqueueSelect ev s todo)
        (.enqueueExit ev s todo (some (.ctx err)))
  | enqueueDone {ev : Event} {s : SubPtr} {todo : List SubPtr} {sub : Subscription} :
      w.subs[s]? = some sub → sub.done = true →
      Quiet w c (.enqueueDone c) (.enqueueSelect ev s todo)
        (.enqueueExit ev s todo (some .subscription))
  | enqueueFull {ev : Event} {s : SubPtr} {todo : List SubPtr} {sub : Subscription} :
      w.subs[s]? = some sub → w.broker.config.backpressure = .drop →
      sub.events.send ⟨c, ev⟩ = .blocked →
      Quiet w c (.enqueueDefault c) (.enqueueSelect ev s todo)
        (.enqueueExit ev s todo (some .queueFull))
  -- a broker that drains refuses with `ErrClosed` too
  | subscribeRefused {topic : Bytes} : w.broker.closed = true ∨ w.broker.draining = true →
      Quiet w c (.subscribe c) (.subscribe topic) (.returned (.failed .closed))
  -- `Drain`: the loop over the length of the queue
  | drainEmpty {s : SubPtr} {sub : Subscription} :
      w.subs[s]? = some sub → sub.events.buf = [] →
      Quiet w c (.drainCheck c) (.drain s) (.closeSubscription s)
  | drainBusy {s : SubPtr} {sub : Subscription} :
      w.subs[s]? = some sub → sub.events.buf ≠ [] →
      Quiet w c (.drainCheck c) (.drain s) (.drainWait s)
  | drainTick {s : SubPtr} : Quiet w c (.drainTick c) (.drainWait s) (.drain s)
  | drainCtx {s : SubPtr} {err : CtxErr} : w.ctxs c = .done err →
      Quiet w c (.drainCtx c) (.drainWait s) (.returned (.failed (.ctx err)))
  -- `Close` of the broker and the `close` of subscriptions
  | closeBrokerAgain {order : List SubPtr} : w.broker.closed = true →
      Quiet w c (.closeBroker c order) .closeBroker (.returned .ok)
  | closeOnceAfter {s : SubPtr} {drain : Bool} {rest : List SubPtr} {sub : Subscription} :
      w.subs[s]? = some sub → sub.once = .finished →
      Quiet w c (.closeOnce c) (.closeOnce s drain rest) (.closeNext rest)
  | closeWait {s : SubPtr} {drain : Bool} {rest : List SubPtr} {sub : Subscription} :
      w.subs[s]? = some sub → sub.wg = 0 →
      Quiet w c (.closeWait c) (.closeWait s drain rest)
        (if drain then .closeEvents s rest else .closeDiscard s rest)
  | closeDiscardEmpty {s : SubPtr} {rest : List SubPtr} {sub : Subscription} :
      w.subs[s]? = some sub → sub.events.buf = [] →
      Quiet w c (.closeDiscard c) (.closeDiscard s rest) (.closeEvents s rest)

/-! ## All steps -/

/-- The new subscription `Subscribe` makes for `topic`, with the events replayed to it. -/
def Bus.subscribeNew (w : Bus) (topic : Bytes) (events : Chan Copy) : Subscription :=
  { newSubscription topic (w.broker.sequence + 1) w.broker.config.queueSize with
    events := events }

/-- The broker after `Subscribe`. -/
def Bus.subscribeBroker (w : Bus) (topic : Bytes) : Broker :=
  (w.broker.register topic (w.broker.sequence + 1) w.subs.length).takeCached topic
    (min (w.broker.cached topic).length w.broker.config.queueSize)

/-- The events `Subscribe` replays. -/
def Bus.replayed (w : Bus) (topic : Bytes) : List Copy :=
  (w.broker.cached topic).take (min (w.broker.cached topic).length w.broker.config.queueSize)

/-- `Move w c a pc pc' w₁ os`: with action `a`, call `c` moves from `pc` to `pc'`; apart
    from the new program counter the bus becomes `w₁`. -/
inductive Move (w : Bus) (c : CallId) : Action → Pc → Pc → Bus → List Obs → Prop
  | quiet {a : Action} {pc pc' : Pc} : Quiet w c a pc pc' → Move w c a pc pc' w (pc'.report c)
  -- nobody is subscribed: the event is cached and its key remembered under one lock
  | publishCached {oldest : Bytes} {ev : Event} {b : Broker} :
      w.broker.closed = false → w.broker.draining = false →
      ¬(idempotencyKey ev ≠ [] ∧ w.broker.seen ev.topic (idempotencyKey ev) = true) →
      w.broker.registered ev.topic = [] →
      (w.broker.cacheEvent ⟨c, ev⟩).remember ev.topic (idempotencyKey ev) oldest = some b →
      Move w c (.publishEnter c [] oldest) (.publish ev) (.returned .published) (w.setBroker b)
        (.snapshot c [] :: (Bus.cacheObs w.broker ⟨c, ev⟩ ++ [.returned c .published]))
  -- the lock is released here; the key is remembered in `publishLeave`
  | publishSnapshot {order : List SubPtr} {oldest : Bytes} {ev : Event} :
      w.broker.closed = false → w.broker.draining = false →
      ¬(idempotencyKey ev ≠ [] ∧ w.broker.seen ev.topic (idempotencyKey ev) = true) →
      order.Perm (w.broker.registered ev.topic) → order ≠ [] →
      Move w c (.publishEnter c order oldest) (.publish ev) (.fanOut ev order) w
        [.snapshot c order]
  | enqueueEnter {ev : Event} {s : SubPtr} {todo : List SubPtr} {sub : Subscription} :
      w.subs[s]? = some sub → sub.closed = false →
      Move w c (.enqueueEnter c) (.fanOut ev (s :: todo)) (.enqueueEntered ev s todo)
        (w.setSub s { sub with wg := sub.wg + 1 }) []
  | enqueueSend {ev : Event} {s : SubPtr} {todo : List SubPtr} {sub : Subscription}
      {events : Chan Copy} :
      w.subs[s]? = some sub → sub.events.send ⟨c, ev⟩ = .done events →
      Move w c (.enqueueSend c) (.enqueueSelect ev s todo) (.enqueueExit ev s todo none)
        (w.setSub s { sub with events := events }) [.put s ⟨c, ev⟩ .direct]
  | enqueuePanic {ev : Event} {s : SubPtr} {todo : List SubPtr} {sub : Subscription} :
      w.subs[s]? = some sub → sub.events.closed = true →
      Move w c (.enqueueSend c) (.enqueueSelect ev s todo) .panicked w [.panicked s]
  -- `s.wg.Done()`, and the next subscriber
  | enqueueReturn {ev : Event} {s : SubPtr} {todo : List SubPtr} {sub : Subscription} :
      w.subs[s]? = some sub →
      Move w c (.enqueueReturn c) (.enqueueExit ev s todo none) (.fanOut ev todo)
        (w.setSub s { sub with wg := sub.wg - 1 }) []
  -- the first error ends the loop, whoever comes after
  | enqueueFail {ev : Event} {s : SubPtr} {todo : List SubPtr} {err : Err}
      {sub : Subscription} :
      w.subs[s]? = some sub →
      Move w c (.enqueueReturn c) (.enqueueExit ev s todo (some err)) (.returned (.failed err))
        (w.setSub s { sub with wg := sub.wg - 1 }) [.returned c (.failed err)]
  | publishLeave {oldest : Bytes} {ev : Event} {b : Broker} :
      w.broker.remember ev.topic (idempotencyKey ev) oldest = some b →
      Move w c (.publishLeave c oldest) (.fanOut ev []) (.returned .published) (w.setBroker b)
        [.returned c .published]
  | subscribe {topic : Bytes} {events : Chan Copy} :
      w.broker.closed = false → w.broker.draining = false → events.buf = w.replayed topic →
      events.cap = w.broker.config.queueSize → events.closed = false →
      Move w c (.subscribe c) (.subscribe topic) (.returned (.subscribed w.subs.length))
        { w with
          broker := w.subscribeBroker topic
          subs := w.subs ++ [w.subscribeNew topic events] }
        ((w.replayed topic).map (.put w.subs.length · .replay) ++
          [.returned c (.subscribed w.subs.length)])
  | beginShutdown :
      Move w c (.beginShutdown c) .beginShutdown (.returned .ok)
        (w.setBroker { w.broker with draining := true }) [.returned c .ok]
  -- the topic is left without an entry when its last subscription goes
  | closeDeregister {s : SubPtr} {sub : Subscription} : w.subs[s]? = some sub →
      Move w c (.closeDeregister c) (.closeSubscription s) (.closeOnce s true [])
        (w.setBroker (w.broker.deregister sub.topic sub.id)) []
  | closeBroker {order : List SubPtr} : w.broker.closed = false →
      order.Perm w.broker.allRegistered →
      Move w c (.closeBroker c order) .closeBroker (.closeNext order)
        (w.setBroker { w.broker with closed := true, topics := ∅ })
        ((Pc.closeNext order).report c)
  | closeOnce {s : SubPtr} {drain : Bool} {rest : List SubPtr} {sub : Subscription} :
      w.subs[s]? = some sub → sub.once = .fresh →
      Move w c (.closeOnce c) (.closeOnce s drain rest) (.closeMark s drain rest)
        (w.setSub s { sub with once := .running }) []
  -- from here on no `enqueue` adds itself to `s.wg`
  | closeMark {s : SubPtr} {drain : Bool} {rest : List SubPtr} {sub : Subscription} :
      w.subs[s]? = some sub → sub.done = false →
      Move w c (.closeMark c) (.closeMark s drain rest) (.closeWait s drain rest)
        (w.setSub s { sub with closed := true, done := true }) [.closedDone s]
  | closeMarkPanic {s : SubPtr} {drain : Bool} {rest : List SubPtr} {sub : Subscription} :
      w.subs[s]? = some sub → sub.done = true →
      Move w c (.closeMark c) (.closeMark s drain rest) .panicked w [.panicked s]
  | closeDiscard {s : SubPtr} {rest : List SubPtr} {sub : Subscription} {x : Copy}
      {events : Chan Copy} :
      w.subs[s]? = some sub → sub.events.receive = .done (some x, events) →
      Move w c (.closeDiscard c) (.closeDiscard s rest) (.closeDiscard s rest)
        (w.setSub s { sub with events := events }) [.discarded s x]
  -- a receive from a closed channel gives a zero event, again and again
  | closeDiscardSpin {s : SubPtr} {rest : List SubPtr} {sub : Subscription} :
      w.subs[s]? = some sub → sub.events.closed = true →
      Move w c (.closeDiscard c) (.closeDiscard s rest) (.closeDiscard s rest) w []
  | closeEvents {s : SubPtr} {rest : List SubPtr} {sub : Subscription} {events : Chan Copy} :
      w.subs[s]? = some sub → sub.events.close = .done events →
      Move w c (.closeEvents c) (.closeEvents s rest) (.closeNext rest)
        (w.setSub s { sub with events := events, once := .finished })
        (.closedEvents s :: (Pc.closeNext rest).report c)
  | closeEventsPanic {s : SubPtr} {rest : List SubPtr} {sub : Subscription} :
      w.subs[s]? = some sub → sub.events.closed = true →
      Move w c (.closeEvents c) (.closeEvents s rest) .panicked w [.panicked s]

/-- Every change a step can make, with the observations it reports. -/
inductive Effect (w : Bus) : Action → Bus → List Obs → Prop
  | invoke {c : CallId} {op : Op} : w.calls c = none →
      Effect w (.invoke c op)
        { w.setPc c op.start with ctxs := Function.update w.ctxs c op.ctx } [.invoked c op]
  | cancel {c : CallId} {err : CtxErr} : w.ctxs c = .live →
      Effect w (.cancel c err) { w with ctxs := Function.update w.ctxs c (.done err) } []
  | call {c : CallId} {a : Action} {pc pc' : Pc} {w₁ : Bus} {os : List Obs} :
      w.calls c = some pc → Move w c a pc pc' w₁ os → Effect w a (w₁.setPc c pc') os
  | receive {s : SubPtr} {sub : Subscription} {x : Copy} {events : Chan Copy} :
      w.subs[s]? = some sub → sub.events.receive = .done (some x, events) →
      Effect w (.receive s) (w.setSub s { sub with events := events }) [.received s x]
  | receiveEnd {s : SubPtr} {sub : Subscription} :
      w.subs[s]? = some sub → sub.events.buf = [] → sub.events.closed = true →
      Effect w (.receive s) w [.ended s]

/-- A move changes no program counter but that of the call that moves. -/
theorem Move.calls_eq {w : Bus} {c : CallId} {pc : Pc} (h : Move w c a pc pc' w₁ os) :
    w₁.calls = w.calls := by
  cases h <;> rfl

/-! ## Observations -/

/-- A move to `pc` reports at most that the call returns. -/
@[simp] theorem Pc.mem_report {c : CallId} {pc : Pc} :
    o ∈ pc.report c ↔ ∃ r, pc = .returned r ∧ o = .returned c r := by
  cases pc <;> simp [Pc.report]

/-- What `cacheEvent` does is reported as changes of the topic cache. -/
@[simp] theorem Bus.mem_cacheObs {b : Broker} {x : Copy} :
    o ∈ Bus.cacheObs b x ↔ b.config.cacheSize ≠ 0 ∧ (o = .cached x ∨
      (b.config.cacheSize ≤ (b.cached x.event.topic).length ∧
        ∃ y ∈ (b.cached x.event.topic).take 1, o = .evicted y)) := by
  simp only [Bus.cacheObs]
  split
  · simp [*]
  split
  · rename_i hsize hfull
    simp only [List.mem_append, List.mem_map, List.mem_singleton, ne_eq, hsize, not_false_eq_true,
      hfull, true_and, eq_comm (a := o)]
    exact or_comm
  · simp [*]

/-- The call that makes an observation by a step of its own. -/
def Obs.actor : Obs → Option CallId
  | .invoked c _ | .returned c _ | .snapshot c _ => some c
  | .cached x | .put _ x .direct => some x.call
  | _ => none

/-- A move reports observations of the call that moves only. -/
theorem Move.actor {w : Bus} {c d : CallId} {pc : Pc} (h : Move w c a pc pc' w₁ os) (ho : o ∈ os)
    (hd : o.actor = some d) : d = c := by
  cases h with
  | quiet | closeBroker =>
    obtain ⟨r, -, rfl⟩ := Pc.mem_report.mp ho
    exact (Option.some.inj hd).symm
  -- an eviction and a replay have no actor: the event is that of another call
  | publishCached =>
    simp only [List.mem_cons, List.mem_append, Bus.mem_cacheObs, List.not_mem_nil, or_false] at ho
    rcases ho with rfl | ⟨-, rfl | ⟨-, y, -, rfl⟩⟩ | rfl
    · exact (Option.some.inj hd).symm
    · exact (Option.some.inj hd).symm
    · cases hd
    · exact (Option.some.inj hd).symm
  | subscribe =>
    simp only [List.mem_append, List.mem_map, List.mem_singleton] at ho
    rcases ho with ⟨y, -, rfl⟩ | rfl
    · cases hd
    · exact (Option.some.inj hd).symm
  | closeEvents =>
    rcases List.mem_cons.mp ho with rfl | ho
    · cases hd
    · obtain ⟨r, -, rfl⟩ := Pc.mem_report.mp ho
      exact (Option.some.inj hd).symm
  | enqueueEnter | enqueueReturn | closeDeregister | closeOnce | closeDiscardSpin =>
    cases ho
  | _ =>
    obtain rfl := List.mem_singleton.mp ho
    simp_all [Obs.actor]

/-- A step, seen from call `d`: others move, or `d` is invoked, or `d` moves. -/
theorem Effect.cases_call {w : Bus} (h : Effect w a w' os) (d : CallId) :
    (w'.calls d = w.calls d ∧ ∀ o ∈ os, o.actor ≠ some d) ∨
    (∃ op, w.calls d = none ∧ w'.calls d = some op.start ∧ os = [.invoked d op]) ∨
    ∃ pc pc' w₁, w.calls d = some pc ∧ Move w d a pc pc' w₁ os ∧ w' = w₁.setPc d pc' := by
  cases h with
  | @invoke c op hnone =>
    by_cases hd : d = c
    · subst hd
      exact .inr (.inl ⟨op, hnone, by simp, rfl⟩)
    · refine .inl ⟨by simp [hd], ?_⟩
      simp [Obs.actor, Ne.symm hd]
  | @call c _ pc pc' w₁ _ hpc hm =>
    by_cases hd : d = c
    · subst hd
      exact .inr (.inr ⟨pc, pc', w₁, hpc, hm, rfl⟩)
    · refine .inl ⟨by rw [Bus.setPc_calls_of_ne _ _ hd, hm.calls_eq], fun o ho hact => ?_⟩
      exact hd (hm.actor ho hact)
  | cancel => exact .inl ⟨rfl, by simp⟩
  | receive => exact .inl ⟨rfl, by simp [Obs.actor]⟩
  | receiveEnd => exact .inl ⟨rfl, by simp [Obs.actor]⟩

/-! ## Inversion, one action at a time -/

variable {w : Bus} {c : CallId}

/-- A `goto` on the unchanged bus is a `Quiet` move. -/
private theorem quiet_effect {pc : Pc} (hpc : w.calls c = some pc) (hq : Quiet w c a pc pc')
    (h : some (w.goto c pc') = some (w', os)) : Effect w a w' os := by
  cases h
  exact .call hpc (.quiet hq)

/-- `PublishWithResult` up to the copy of the subscribers: it refuses, finds a duplicate, caches
    the event where nobody is subscribed, or goes on to the loop. -/
private theorem publishEnter_effect (h : w.publishEnter c order oldest = some (w', os)) :
    Effect w (.publishEnter c order oldest) w' os := by
  simp only [Bus.publishEnter] at h
  split at h
  · rename_i ev hpc
    split at h
    · exact quiet_effect hpc (.publishClosed ‹_›) h
    split at h
    · exact quiet_effect hpc (.publishDraining ‹_›) h
    split at h
    · rename_i hdup
      exact quiet_effect hpc (.publishDuplicate hdup.1 hdup.2) h
    split at h
    · rename_i hclosed hdraining hnew hperm
      rw [Bool.not_eq_true] at hclosed hdraining
      -- with no subscribers `remember` has to evict the oldest key, as the action says
      split at h
      · rename_i hnil
        subst hnil
        split at h
        · cases h
        · rename_i b hb
          cases h
          exact .call hpc (.publishCached hclosed hdraining hnew (List.nil_perm.mp hperm) hb)
      · rename_i hne
        cases h
        exact .call hpc (.publishSnapshot hclosed hdraining hnew hperm hne)
    · cases h
  · cases h

/-- `enqueue` fails on a closed subscription, or adds itself to `s.wg`. -/
private theorem enqueueEnter_effect (h : w.enqueueEnter c = some (w', os)) :
    Effect w (.enqueueEnter c) w' os := by
  simp only [Bus.enqueueEnter] at h
  split at h
  · rename_i hpc
    split at h
    · rename_i sub hs
      split at h
      · exact quiet_effect hpc (.enqueueClosed hs ‹_›) h
      · rename_i hopen
        cases h
        exact .call hpc (.enqueueEnter hs (by simpa using hopen))
    · cases h
  · cases h

/-- The first `select` of `enqueue` looks at `s.done`. -/
private theorem enqueueCheck_effect (h : w.enqueueCheck c = some (w', os)) :
    Effect w (.enqueueCheck c) w' os := by
  simp only [Bus.enqueueCheck] at h
  split at h
  · rename_i hpc
    split at h
    · rename_i sub hs
      split at h
      · exact quiet_effect hpc (.enqueueCheckDone hs ‹_›) h
      · rename_i hopen
        exact quiet_effect hpc (.enqueueCheckOpen hs (by simpa using hopen)) h
    · cases h
  · cases h

/-- `case <-ctx.Done()` of `enqueue`, which `Drop` does not have. -/
private theorem enqueueCtx_effect (h : w.enqueueCtx c = some (w', os)) :
    Effect w (.enqueueCtx c) w' os := by
  simp only [Bus.enqueueCtx] at h
  split at h
  · rename_i hpc hctx
    split at h
    · cases h
    · exact quiet_effect hpc (.enqueueCtx hctx ‹_›) h
  · cases h

/-- `case <-s.done` of `enqueue`. -/
private theorem enqueueDone_effect (h : w.enqueueDone c = some (w', os)) :
    Effect w (.enqueueDone c) w' os := by
  simp only [Bus.enqueueDone] at h
  split at h
  · rename_i hpc
    split at h
    · rename_i sub hs
      split at h
      · exact quiet_effect hpc (.enqueueDone hs ‹_›) h
      · cases h
    · cases h
  · cases h

/-- `case s.events <- event` of `enqueue`, which panics on a closed channel. -/
private theorem enqueueSend_effect (h : w.enqueueSend c = some (w', os)) :
    Effect w (.enqueueSend c) w' os := by
  simp only [Bus.enqueueSend] at h
  split at h
  · rename_i hpc
    split at h
    · rename_i sub hs
      split at h
      · rename_i hsend
        cases h
        exact .call hpc (.enqueueSend hs hsend)
      · cases h
      · rename_i hsend
        simp only [Bus.crash, Option.some.injEq, Prod.mk.injEq] at h
        obtain ⟨rfl, rfl⟩ := h
        exact .call hpc (.enqueuePanic hs ((Chan.send_panics_iff _ _).mp hsend))
    · cases h
  · cases h

/-- The `default` case of `enqueue` under `Drop`. -/
private theorem enqueueDefault_effect (h : w.enqueueDefault c = some (w', os)) :
    Effect w (.enqueueDefault c) w' os := by
  simp only [Bus.enqueueDefault] at h
  split at h
  · rename_i hpc
    split at h
    · rename_i sub hs
      split at h
      · rename_i hfull
        exact quiet_effect hpc (.enqueueFull hs hfull.1 hfull.2.2) h
      · cases h
    · cases h
  · cases h

/-- `enqueue` leaves `s.wg` and returns; an error ends the loop of `PublishWithResult`. -/
private theorem enqueueReturn_effect (h : w.enqueueReturn c = some (w', os)) :
    Effect w (.enqueueReturn c) w' os := by
  simp only [Bus.enqueueReturn] at h
  split at h
  · rename_i hpc
    split at h
    · rename_i sub hs
      split at h
      · cases h
        exact .call hpc (.enqueueReturn hs)
      · cases h
        exact .call hpc (.enqueueFail hs)
    · cases h
  · cases h

/-- `PublishWithResult` remembers the key of the event and returns `Published`. -/
private theorem publishLeave_effect (h : w.publishLeave c oldest = some (w', os)) :
    Effect w (.publishLeave c oldest) w' os := by
  simp only [Bus.publishLeave] at h
  split at h
  · rename_i hpc
    split at h
    · cases h
    · rename_i b hb
      cases h
      exact .call hpc (.publishLeave hb)
  · cases h

/-- `Subscribe` refuses, or registers a subscription with the replayed events in its queue. -/
private theorem subscribe_effect (h : w.subscribe c = some (w', os)) :
    Effect w (.subscribe c) w' os := by
  simp only [Bus.subscribe] at h
  split at h
  · rename_i topic hpc
    split at h
    · exact quiet_effect hpc (.subscribeRefused ‹_›) h
    · rename_i hopen
      simp only [not_or, Bool.not_eq_true] at hopen
      -- the replayed events fit into the fresh queue, so the sends under the lock complete
      have hroom : (newSubscription topic (w.broker.sequence + 1)
            w.broker.config.queueSize).events.buf.length + (w.replayed topic).length ≤
          (newSubscription topic (w.broker.sequence + 1) w.broker.config.queueSize).events.cap := by
        simp only [newSubscription, Chan.make_buf, Chan.make_cap, Bus.replayed, List.length_nil,
          List.length_take]
        omega
      obtain ⟨events, hall, hbuf, hcap, hcl⟩ := Chan.exists_sendAll_done _ _ rfl hroom
      have hall' : (newSubscription topic (w.broker.sequence + 1)
          w.broker.config.queueSize).events.sendAll
            ((w.broker.cached topic).take (min (w.broker.cached topic).length
              (newSubscription topic (w.broker.sequence + 1)
                w.broker.config.queueSize).events.cap)) = .done events := hall
      simp only [hall', Option.some.injEq, Prod.mk.injEq] at h
      obtain ⟨rfl, rfl⟩ := h
      exact .call hpc (.subscribe hopen.1 hopen.2 (by simpa [newSubscription] using hbuf)
        (by simpa [newSubscription] using hcap) hcl)
  · cases h

/-- `BeginShutdown` sets `b.draining`. -/
private theorem beginShutdown_effect (h : w.beginShutdown c = some (w', os)) :
    Effect w (.beginShutdown c) w' os := by
  simp only [Bus.beginShutdown] at h
  split at h
  · cases h
    exact .call ‹_› .beginShutdown
  · cases h

/-- `Drain` goes on to `Close` when the queue is empty, and waits otherwise. -/
private theorem drainCheck_effect (h : w.drainCheck c = some (w', os)) :
    Effect w (.drainCheck c) w' os := by
  simp only [Bus.drainCheck] at h
  split at h
  · rename_i hpc
    split at h
    · rename_i sub hs
      split at h
      · rename_i hlen
        exact quiet_effect hpc (.drainEmpty hs (List.length_eq_zero_iff.mp hlen)) h
      · rename_i hlen
        exact quiet_effect hpc (.drainBusy hs fun hnil => hlen (by rw [hnil]; rfl)) h
    · cases h
  · cases h

/-- A tick makes `Drain` look at the queue again. -/
private theorem drainTick_effect (h : w.drainTick c = some (w', os)) :
    Effect w (.drainTick c) w' os := by
  simp only [Bus.drainTick] at h
  split at h
  · exact quiet_effect ‹_› .drainTick h
  · cases h

/-- `Drain` returns the error of its context. -/
private theorem drainCtx_effect (h : w.drainCtx c = some (w', os)) :
    Effect w (.drainCtx c) w' os := by
  simp only [Bus.drainCtx] at h
  split at h
  · rename_i hpc hctx
    exact quiet_effect hpc (.drainCtx hctx) h
  · cases h

/-- `Close` of a subscription deletes it from the topic. -/
private theorem closeDeregister_effect (h : w.closeDeregister c = some (w', os)) :
    Effect w (.closeDeregister c) w' os := by
  simp only [Bus.closeDeregister] at h
  split at h
  · rename_i hpc
    split at h
    · rename_i sub hs
      cases h
      exact .call hpc (.closeDeregister hs)
    · cases h
  · cases h

/-- `Close` of the broker returns if it is closed, or takes all subscriptions off their topics. -/
private theorem closeBroker_effect (h : w.closeBroker c order = some (w', os)) :
    Effect w (.closeBroker c order) w' os := by
  simp only [Bus.closeBroker] at h
  split at h
  · rename_i hpc
    split at h
    · exact quiet_effect hpc (.closeBrokerAgain ‹_›) h
    · rename_i hopen
      split at h
      · cases h
        exact .call hpc (.closeBroker (by simpa using hopen) ‹_›)
      · cases h
  · cases h

/-- A call of `close` runs the body of `s.once`, or finds that it has been run. -/
private theorem closeOnce_effect (h : w.closeOnce c = some (w', os)) :
    Effect w (.closeOnce c) w' os := by
  simp only [Bus.closeOnce] at h
  split at h
  · rename_i hpc
    split at h
    · rename_i sub hs
      split at h
      · cases h
        exact .call hpc (.closeOnce hs ‹_›)
      · cases h
      · exact quiet_effect hpc (.closeOnceAfter hs ‹_›) h
    · cases h
  · cases h

/-- `close` sets `s.closed` and closes `s.done`. -/
private theorem closeMark_effect (h : w.closeMark c = some (w', os)) :
    Effect w (.closeMark c) w' os := by
  simp only [Bus.closeMark] at h
  split at h
  · rename_i hpc
    split at h
    · rename_i sub hs
      split at h
      · simp only [Bus.crash, Option.some.injEq, Prod.mk.injEq] at h
        obtain ⟨rfl, rfl⟩ := h
        exact .call hpc (.closeMarkPanic hs ‹_›)
      · rename_i hopen
        cases h
        exact .call hpc (.closeMark hs (by simpa using hopen))
    · cases h
  · cases h

/-- `close` waits for the calls of `enqueue` in `s.wg`. -/
private theorem closeWait_effect (h : w.closeWait c = some (w', os)) :
    Effect w (.closeWait c) w' os := by
  simp only [Bus.closeWait] at h
  split at h
  · rename_i hpc
    split at h
    · rename_i sub hs
      split at h
      · exact quiet_effect hpc (.closeWait hs ‹_›) h
      · cases h
    · cases h
  · cases h

/-- `close` without `drain` discards what is in the queue. -/
private theorem closeDiscard_effect (h : w.closeDiscard c = some (w', os)) :
    Effect w (.closeDiscard c) w' os := by
  simp only [Bus.closeDiscard] at h
  split at h
  · rename_i hpc
    split at h
    · rename_i sub hs
      split at h
      · rename_i hrecv
        cases h
        exact .call hpc (.closeDiscard hs hrecv)
      · rename_i hrecv
        cases h
        exact .call hpc (.closeDiscardSpin hs (Chan.receive_none hrecv).2.1)
      · rename_i hrecv
        exact quiet_effect hpc
          (.closeDiscardEmpty hs ((Chan.receive_blocked_iff _).mp hrecv).1) h
      · cases h
    · cases h
  · cases h

/-- `close` closes `s.events`, and `s.once` is done. -/
private theorem closeEvents_effect (h : w.closeEvents c = some (w', os)) :
    Effect w (.closeEvents c) w' os := by
  simp only [Bus.closeEvents] at h
  split at h
  · rename_i hpc
    split at h
    · rename_i sub hs
      split at h
      · rename_i hclose
        simp only [Bus.goto, Option.some.injEq, Prod.mk.injEq] at h
        obtain ⟨rfl, rfl⟩ := h
        exact .call hpc (.closeEvents hs hclose)
      · cases h
      · rename_i hclose
        simp only [Bus.crash, Option.some.injEq, Prod.mk.injEq] at h
        obtain ⟨rfl, rfl⟩ := h
        exact .call hpc (.closeEventsPanic hs ((Chan.close_panics_iff _).mp hclose))
    · cases h
  · cases h

/-- A consumer receives an event, or the end of the channel. -/
private theorem receive_effect {s : SubPtr} (h : w.receive s = some (w', os)) :
    Effect w (.receive s) w' os := by
  simp only [Bus.receive] at h
  split at h
  · rename_i sub hs
    split at h
    · rename_i hrecv
      cases h
      exact .receive hs hrecv
    · rename_i hrecv
      cases h
      obtain ⟨hbuf, hcl, -⟩ := Chan.receive_none hrecv
      exact .receiveEnd hs hbuf hcl
    · cases h
    · cases h
  · cases h

/-- Every step of the bus is one of the listed effects. -/
theorem step_effect (h : w.step a = some (w', os)) : Effect w a w' os := by
  cases a with
  | invoke c op =>
    simp only [Bus.step, Bus.invoke] at h
    split at h
    · cases h
      exact .invoke ‹_›
    · cases h
  | cancel c err =>
    simp only [Bus.step, Bus.cancel] at h
    split at h
    · cases h
      exact .cancel ‹_›
    · cases h
  | publishEnter c order oldest => exact publishEnter_effect h
  | enqueueEnter c => exact enqueueEnter_effect h
  | enqueueCheck c => exact enqueueCheck_effect h
  | enqueueCtx c => exact enqueueCtx_effect h
  | enqueueDone c => exact enqueueDone_effect h
  | enqueueSend c => exact enqueueSend_effect h
  | enqueueDefault c => exact enqueueDefault_effect h
  | enqueueReturn c => exact enqueueReturn_effect h
  | publishLeave c oldest => exact publishLeave_effect h
  | subscribe c => exact subscribe_effect h
  | beginShutdown c => exact beginShutdown_effect h
  | drainCheck c => exact drainCheck_effect h
  | drainTick c => exact drainTick_effect h
  | drainCtx c => exact drainCtx_effect h
  | closeDeregister c => exact closeDeregister_effect h
  | closeBroker c order => exact closeBroker_effect h
  | closeOnce c => exact closeOnce_effect h
  | closeMark c => exact closeMark_effect h
  | closeWait c => exact closeWait_effect h
  | closeDiscard c => exact closeDiscard_effect h
  | closeEvents c => exact closeEvents_effect h
  | receive s => exact receive_effect h

/-! ## Runs -/

/-- Call `c` subscribes to the topic 7. -/
def Broker.subscribeRun (c : CallId) : List Action := [.invoke c (.subscribe [7]), .subscribe c]

/-- Call `c` publishes an event with this ID to the topic 7 and copies its subscribers. -/
def Broker.publishRun (c : CallId) (id : UInt8) (order : List SubPtr) : List Action :=
  [.invoke c (.publishWithResult .background ⟨[id], [], [7], [], []⟩), .publishEnter c order []]

/-- The loop of call `c` gives the next subscription the event. -/
def Broker.giveRun (c : CallId) : List Action :=
  [.enqueueEnter c, .enqueueCheck c, .enqueueSend c, .enqueueReturn c]

/-- The loop of call `c` finds the next queue full and the policy drops. -/
def Broker.refuseRun (c : CallId) : List Action :=
  [.enqueueEnter c, .enqueueCheck c, .enqueueDefault c, .enqueueReturn c]

end EventBus
