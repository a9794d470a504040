import EventBus.Spec.BrokerCalls
import EventBus.Spec.ServerStep

/-!
# The subscriptions of a connection

A subscription that `broker.Subscribe` returns to a connection belongs to that
connection alone: no other connection and no other user of the broker receives from it.
`serve` holds it first; then a delivery goroutine is started for it.

## Key results

- `ConnMove.deliveryStep`: a step of a connection, seen from one delivery goroutine
- `own_inv`: the ownership invariant of every run
-/

namespace EventBus

variable {pc pc' : ServePc} {bus b : Option Action} {obs : List ConnObs} {call : CallId}
  {c c' : Connection} {sub : SubPtr} {topic : Bytes} {act : ConnAction} {out : Out}
  {s s' : Server} {a : ServerAction} {os : List ServerObs} {k : ConnId}

/-! ## Program counters of serve -/

/-- The subscription `serve` has been given and has started no goroutine for yet. -/
def ServePc.held : ServePc → Option SubPtr
  | .subscribeStore _ sub | .subscribeReplace _ sub _ | .subscribeReplaceWait _ sub _ _
  | .subscribeSpawn sub => some sub
  | _ => none

/-- The call of `broker.Subscribe` that `serve` waits for. -/
def ServePc.awaited : ServePc → Option CallId
  | .subscribeWait _ call => some call
  | _ => none

/-- `serve` is at a `ReadFrame`, a write, or the start of a request or of its end. -/
def ServePc.plain : ServePc → Bool
  | .reading | .send .. | .abort | .subscribeLock _ | .publishCall _ => true
  | _ => false

theorem ServePc.Reports.plain (h : pc.Reports) : pc.plain = true := by
  cases h <;> rfl

@[simp] theorem AfterSend.plain_pc (after : AfterSend) : after.pc.plain = true :=
  after.reports_pc.plain

@[simp] theorem plain_sendError (text : Bytes) (after : AfterSend) :
    (sendError text after).plain = true := (reports_sendError text after).plain

@[simp] theorem plain_connectNext (frame : Frame) : (connectNext frame).plain = true :=
  (reports_connectNext frame).plain

@[simp] theorem plain_subscribeNext (payload : Bytes) : (subscribeNext payload).plain = true := by
  rcases subscribeNext_cases payload with h | ⟨_, -, h⟩
  · exact h.plain
  · rw [h]
    rfl

@[simp] theorem plain_publishNext (payload : Bytes) : (publishNext payload).plain = true := by
  rcases publishNext_cases payload with h | ⟨_, -, h⟩
  · exact h.plain
  · rw [h]
    rfl

@[simp] theorem plain_publishReply (ack : AckMessage) : (publishReply ack).plain = true := by
  rcases publishReply_cases ack with h | ⟨_, -, h⟩
  · exact h.plain
  · rw [h]
    rfl

theorem ServePc.held_of_plain (h : pc.plain = true) : pc.held = none := by
  cases pc <;> first | rfl | exact nomatch h

theorem ServePc.awaited_of_plain (h : pc.plain = true) : pc.awaited = none := by
  cases pc <;> first | rfl | exact nomatch h

/-! ## Steps of the bus, seen from the server -/

namespace BusStep

variable {w w' : Bus} {os : List Obs}

/-- A call that has been made stays known. -/
theorem called (h : BusStep w b w' os) (hc : w.calls call ≠ none) : w'.calls call ≠ none := by
  cases b with
  | none => rw [h.1]; exact hc
  | some b => exact (step_effect h).called hc

/-- A call that has returned has its result for good. -/
theorem returned {r : Ret} (h : BusStep w b w' os) (hc : w.calls call = some (.returned r)) :
    w'.calls call = some (.returned r) := by
  cases b with
  | none => rw [h.1]; exact hc
  | some b => exact (step_effect h).returned hc

/-- Subscriptions are never freed. -/
theorem alloc (h : BusStep w b w' os) (hp : sub < w.subs.length) : sub < w'.subs.length := by
  cases b with
  | none => rw [h.1]; exact hp
  | some b => exact (step_effect h).alloc hp

/-- The subscription is still there, later in its life. -/
theorem later {subscription : Subscription} (h : BusStep w b w' os)
    (hs : w.subs[sub]? = some subscription) :
    ∃ subscription', w'.subs[sub]? = some subscription' ∧ subscription.Later subscription' := by
  cases b with
  | none => exact ⟨_, h.1 ▸ hs, .refl _⟩
  | some b => exact (step_effect h).later _ _ hs

/-- A subscription that a call has returned was returned before, or is made in this step. -/
theorem subscribed (h : BusStep w b w' os)
    (hc : w'.calls call = some (.returned (.subscribed sub))) :
    w.calls call = some (.returned (.subscribed sub)) ∨
      (sub = w.subs.length ∧ sub < w'.subs.length ∧ b = some (.subscribe call) ∧
        w.broker.draining = false) := by
  cases b with
  | none => exact .inl (h.1 ▸ hc)
  | some b =>
    rcases (step_effect h).subscribed hc with hold | ⟨hsub, hlt, rfl, hd⟩
    · exact .inl hold
    · exact .inr ⟨hsub, hlt, rfl, hd⟩

/-- A call runs the method it was made for. -/
theorem runs {op : Op} (h : BusStep w b w' os)
    (hinv : ∀ p sub, w.subs[p]? = some sub → w.SubInv p sub) (hr : w.Runs call op) :
    w'.Runs call op := by
  cases b with
  | none => rw [h.1]; exact hr
  | some b => exact hr.step (step_effect h) hinv

end BusStep

/-! ## Ownership -/

/-- `serve` has been given `sub` and has started no goroutine for it yet. -/
def Connection.Holds (c : Connection) (w : Bus) (sub : SubPtr) : Prop :=
  c.serve.held = some sub ∨
    ∃ call, c.serve.awaited = some call ∧ w.calls call = some (.returned (.subscribed sub))

/-- The connection has subscribed `sub`. -/
def Connection.Owns (c : Connection) (w : Bus) (sub : SubPtr) : Prop :=
  c.Holds w sub ∨ c.deliveries sub ≠ none

section Move

variable {a : ConnAction}

/-- `serve` holds a subscription from the moment it takes up the result of its call. -/
theorem ServeMove.held (h : ServeMove s c a pc pc' bus obs) (hpc' : pc'.held = some sub) :
    pc.held = some sub ∨
      ∃ call, pc.awaited = some call ∧ s.bus.calls call = some (.returned (.subscribed sub)) := by
  cases h with
  | subscribeReturn hr =>
    cases hpc'
    exact .inr ⟨_, rfl, hr⟩
  | subscribeOld | subscribeReplace => exact .inl hpc'
  | subscribe | ackInvalid | unsupported | publishDraining | publishAllowed | subscribeError
  | publishReturn | send | sendReport | sendIgnore =>
    rw [ServePc.held_of_plain (by simp)] at hpc'
    cases hpc'
  | _ => cases hpc'

/-- `serve` waits for a `Subscribe` that it has just called. -/
theorem ServeMove.awaited (h : ServeMove s c a pc pc' bus obs) (hpc' : pc'.awaited = some call) :
    ∃ topic, pc = .subscribeCall topic ∧ pc' = .subscribeWait topic call ∧
      bus = some (.invoke call (.subscribe topic)) := by
  cases h with
  | subscribeCall =>
    cases hpc'
    exact ⟨_, rfl, rfl, rfl⟩
  | subscribe | ackInvalid | unsupported | publishDraining | publishAllowed | subscribeError
  | publishReturn | send | sendReport | sendIgnore =>
    rw [ServePc.awaited_of_plain (by simp)] at hpc'
    cases hpc'
  | _ => cases hpc'

/-- A subscription in the hand of `serve` was its own, or its call has returned it. -/
theorem ConnMove.held (h : ConnMove s c a out) (hout : out.conn.serve.held = some sub) :
    c.Holds s.bus sub := by
  cases h with
  | serve hpc hm =>
    subst hpc
    exact hm.held hout
  | connect =>
    rw [ServePc.held_of_plain (plain_connectNext _)] at hout
    cases hout
  | store hpc | replaced hpc =>
    refine .inl ?_
    rw [hpc]
    exact hout
  | read | spawn | acknowledge | unsubscribe | abort => cases hout
  | _ => exact .inl hout

/-- `serve` waits for the same call as before, or for one it makes in this step. -/
theorem ConnMove.awaited (h : ConnMove s c a out) (hout : out.conn.serve.awaited = some call) :
    out.conn.serve = c.serve ∨ ∃ topic, c.serve = .subscribeCall topic ∧
      out.conn.serve = .subscribeWait topic call ∧
      out.bus = some (.invoke call (.subscribe topic)) := by
  cases h with
  | serve hpc hm =>
    subst hpc
    exact .inr (hm.awaited hout)
  | connect =>
    rw [ServePc.awaited_of_plain (plain_connectNext _)] at hout
    cases hout
  | read | store | replaced | spawn | acknowledge | unsubscribe | abort => cases hout
  | _ => exact .inl rfl

theorem Connection.setDelivery_of_ne {sub' : SubPtr} {pc : DeliverPc} (h : sub' ≠ sub) :
    (c.setDelivery sub pc).deliveries sub' = c.deliveries sub' := by
  simp [Connection.setDelivery, h]

@[simp] theorem Connection.setDelivery_self (c : Connection) (sub : SubPtr) (pc : DeliverPc) :
    (c.setDelivery sub pc).deliveries sub = some pc := by
  simp [Connection.setDelivery]

/-- The delivery goroutine that reports this. -/
def ConnObs.reporter? : ConnObs → Option SubPtr
  | .wrote (.delivery sub _) _ | .delivered sub _ _ => some sub
  | _ => none

/-- A step of connection `c`, seen from the delivery goroutine of `sub`. -/
inductive DeliveryStep (s : Server) (c : Connection) (sub : SubPtr) :
    ConnAction → Option DeliverPc → Option DeliverPc → Option Action → List ConnObs → Prop
  | other {a : ConnAction} {pc : Option DeliverPc} {bus : Option Action} {obs : List ConnObs} :
      bus ≠ some (.receive sub) → (∀ o ∈ obs, o.reporter? ≠ some sub) →
      DeliveryStep s c sub a pc pc bus obs
  | spawn {pc : Option DeliverPc} : c.serve = .subscribeSpawn sub →
      DeliveryStep s c sub .subscribeSpawn pc (some .ranging) none []
  | move {a : ConnAction} {pc pc' : DeliverPc} {bus : Option Action} {obs : List ConnObs} :
      DeliverMove s c sub a pc pc' bus obs → DeliveryStep s c sub a (some pc) (some pc') bus obs
  | register {x : Copy} {payload : Bytes} : encodeEvent x.event = .ok payload →
      DeliveryStep s c sub (.deliverRegister sub) (some (.registering x))
        (some (.sending x payload c.acks.length 1)) none [.registered sub c.acks.length x]
  | acknowledged {x : Copy} {payload : Bytes} {ch : AckChan} {attempt : Nat}
      {acknowledged acknowledged' : Chan UInt8} {status : UInt8} :
      c.acks[ch]? = some acknowledged →
      acknowledged.receive = .done (some status, acknowledged') →
      DeliveryStep s c sub (.deliverAcknowledged sub) (some (.waiting x payload ch attempt))
        (some (if status = ackDelivered then .leaving x true
          else Connection.nextAttempt x payload ch attempt)) none []
  | leave {x : Copy} {ok : Bool} :
      DeliveryStep s c sub (.deliverLeave sub) (some (.leaving x ok))
        (some (if ok then .ranging else .ending)) none [.delivered sub x ok]
  | ended : DeliveryStep s c sub (.deliverEnd sub) (some .ending) (some .ended) none []

/-- Every step of the connection is one of these to each of its delivery goroutines. -/
theorem ConnMove.deliveryStep (h : ConnMove s c a out) (sub : SubPtr) :
    DeliveryStep s c sub a (c.deliveries sub) (out.conn.deliveries sub) out.bus out.obs := by
  -- a goroutine moves, that of `sub` or another
  have hset : ∀ {sub' pc' bus obs},
      (sub' = sub → DeliveryStep s c sub a (c.deliveries sub) (some pc') bus obs) →
      (sub' ≠ sub → bus ≠ some (.receive sub) ∧ ∀ o ∈ obs, o.reporter? ≠ some sub) →
      DeliveryStep s c sub a (c.deliveries sub) ((c.setDelivery sub' pc').deliveries sub) bus
        obs := by
    intro sub' pc' bus obs hown hother
    by_cases hsub : sub' = sub
    · subst hsub
      rw [Connection.setDelivery_self]
      exact hown rfl
    · rw [Connection.setDelivery_of_ne (Ne.symm hsub)]
      exact .other (hother hsub).1 (hother hsub).2
  cases h with
  | serve _ hm => cases hm <;> exact .other (by simp) (by simp [ConnObs.reporter?])
  | graceful _ hm => cases hm <;> exact .other (by simp) (by simp [ConnObs.reporter?])
  | close _ hm => cases hm <;> exact .other (by simp) (by simp)
  | spawn hpc => exact hset (fun heq => .spawn (heq ▸ hpc)) fun _ => ⟨by simp, by simp⟩
  | @deliver _ sub' pc pc' bus obs hpc hm =>
    refine hset (fun heq => ?_) fun hne => ?_
    · subst heq
      rw [hpc]
      exact .move hm
    · cases hm <;> simp [ConnObs.reporter?, hne]
  | register hpc henc =>
    refine hset (fun heq => ?_) fun hne => ⟨by simp, by simp [ConnObs.reporter?]⟩
    subst heq
    rw [hpc]
    exact .register henc
  | acknowledged hpc hch hrecv =>
    refine hset (fun heq => ?_) fun hne => ⟨by simp, by simp⟩
    subst heq
    rw [hpc]
    exact .acknowledged hch hrecv
  | leave hpc =>
    refine hset (fun heq => ?_) fun hne => ⟨by simp, by simp [ConnObs.reporter?, hne]⟩
    subst heq
    rw [hpc]
    exact .leave
  | endDelivery hpc =>
    refine hset (fun heq => ?_) fun hne => ⟨by simp, by simp⟩
    subst heq
    rw [hpc]
    exact .ended
  | _ => exact .other (by simp) (by simp [ConnObs.reporter?])

/-- Only `subscribe` starts a delivery goroutine, for the subscription it holds. -/
theorem ConnMove.deliveries (h : ConnMove s c a out) (hout : out.conn.deliveries sub ≠ none) :
    c.deliveries sub ≠ none ∨
      (c.serve = .subscribeSpawn sub ∧ out.conn.serve = .subscribeUnlock none) := by
  -- a goroutine that moves is there already
  have hset : ∀ {sub' pc pc'}, c.deliveries sub' = some pc →
      (c.setDelivery sub' pc').deliveries sub ≠ none → c.deliveries sub ≠ none := by
    intro sub' pc pc' hpc hne
    by_cases hsub : sub = sub'
    · rw [hsub, hpc]
      exact Option.some_ne_none _
    · rwa [Connection.setDelivery_of_ne hsub] at hne
  cases h with
  | @spawn sub' hpc =>
    by_cases hsub : sub = sub'
    · rw [hsub]
      exact .inr ⟨hpc, rfl⟩
    · rw [show _ = c.deliveries sub from Connection.setDelivery_of_ne hsub] at hout
      exact .inl hout
  | deliver hpc | register hpc | acknowledged hpc | leave hpc | endDelivery hpc =>
    exact .inl (hset hpc hout)
  | _ => exact .inl hout

/-- A delivery goroutine that has been started stays known. -/
theorem DeliveryStep.known {pc pc' : Option DeliverPc} (h : DeliveryStep s c sub a pc pc' bus obs)
    (hne : pc ≠ none) : pc' ≠ none := by
  cases h with
  | other => exact hne
  | _ => exact Option.some_ne_none _

/-- A subscription in `c.subs` was there before, or `subscribe` has just stored it. -/
theorem ConnMove.stored (h : ConnMove s c a out) (hout : out.conn.subs.lookup topic = some sub) :
    c.subs.lookup topic = some sub ∨ out.conn.serve = .subscribeSpawn sub := by
  cases h with
  | @store topic' sub' | @replaced topic' sub' =>
    by_cases ht : topic = topic'
    · subst ht
      rw [AList.lookup_insert, Option.some.injEq] at hout
      exact .inr (by rw [hout])
    · rw [AList.lookup_insert_ne ht] at hout
      exact .inl hout
  | @unsubscribe _ message =>
    by_cases ht : topic = message.topic
    · subst ht
      rw [AList.lookup_erase] at hout
      cases hout
    · rw [AList.lookup_erase_ne ht] at hout
      exact .inl hout
  | closeStart => cases hout
  | _ => exact .inl hout

/-- `subscribe` does not go on before it has started the goroutine. -/
theorem ConnMove.spawned (h : ConnMove s c a out) (hserve : c.serve = .subscribeSpawn sub) :
    out.conn.serve = .subscribeSpawn sub ∨ out.conn.deliveries sub = some .ranging := by
  cases h with
  | serve hpc hm =>
    rw [hserve] at hpc
    subst hpc
    cases hm
  | connect _ hpc | read _ hpc | store hpc | replaced hpc | acknowledge hpc | unsubscribe hpc
  | abort hpc =>
    rw [hserve] at hpc
    cases hpc
  | spawn hpc =>
    rw [hserve, ServePc.subscribeSpawn.injEq] at hpc
    subst hpc
    exact .inr (Connection.setDelivery_self c sub .ranging)
  | _ => exact .inl hserve

/-- A connection makes the bus take a step when it calls the broker or receives an event. -/
theorem ConnMove.bus_cases {b : Action} (h : ConnMove s c a out) (hb : out.bus = some b) :
    (∃ call op, b = .invoke call op) ∨
      ∃ sub, b = .receive sub ∧ c.deliveries sub = some .ranging := by
  cases h with
  | serve _ hm =>
    cases hm with
    | subscribeCall | subscribeReplace | publishCall | unsubscribeCall =>
      exact .inl ⟨_, _, (Option.some.inj hb).symm⟩
    | _ => cases hb
  | deliver hpc hm =>
    cases hm with
    | receive | receiveEnd => exact .inr ⟨_, (Option.some.inj hb).symm, hpc⟩
    | _ => cases hb
  | graceful _ hm =>
    cases hm with
    | drain => exact .inl ⟨_, _, (Option.some.inj hb).symm⟩
    | _ => cases hb
  | close _ hm =>
    cases hm with
    | sub => exact .inl ⟨_, _, (Option.some.inj hb).symm⟩
    | _ => cases hb
  | _ => cases hb

/-- The body of `Subscribe` is a step of the bus, and not of a connection. -/
theorem ConnMove.not_subscribe (h : ConnMove s c a out) :
    out.bus ≠ some (.subscribe call) := by
  intro hb
  rcases h.bus_cases hb with ⟨_, _, heq⟩ | ⟨_, heq, -⟩ <;> exact nomatch heq

end Move

/-- A new connection owns nothing. -/
theorem Connection.not_owns_new (w : Bus) (sub : SubPtr) : ¬newConnection.Owns w sub := by
  rintro ((h | ⟨call, h, -⟩) | h)
  · cases h
  · cases h
  · exact h rfl

section Change

variable {bos os : List Obs}

/-- Where `serve` does not move, it holds what it held, or its call of `broker.Subscribe` has
    just created it. -/
private theorem holds_same (hb : BusStep s.bus b s'.bus os) (hserve : c'.serve = c.serve)
    (hh : c'.Holds s'.bus sub) :
    c.Holds s.bus sub ∨ (sub = s.bus.subs.length ∧ sub < s'.bus.subs.length ∧
      ∃ call, c.serve.awaited = some call ∧ b = some (.subscribe call)) := by
  unfold Connection.Holds at hh
  rw [hserve] at hh
  rcases hh with hheld | ⟨call, hcall, hr⟩
  · exact .inl (.inl hheld)
  · rcases hb.subscribed hr with hold | ⟨hsub, hlt, hb', -⟩
    · exact .inl (.inr ⟨call, hcall, hold⟩)
    · exact .inr ⟨hsub, hlt, call, hcall, hb'⟩

/-- A step of the connection brings no subscription into the hand of `serve`. -/
theorem ConnMove.holds (h : ConnMove s c act out) (hb : BusStep s.bus out.bus s'.bus os)
    (ho : out.conn.Holds s'.bus sub) :
    c.Holds s.bus sub := by
  rcases ho with hheld | ⟨call, hcall, hr⟩
  · exact h.held hheld
  rcases h.awaited hcall with hserve | ⟨topic, -, -, hinv⟩
  · rcases hb.subscribed hr with hold | ⟨-, -, hsub, -⟩
    · rw [hserve] at hcall
      exact .inr ⟨call, hcall, hold⟩
    · exact absurd hsub h.not_subscribe
  · -- the call has only just been made
    rw [hinv] at hb
    obtain ⟨-, hcalls, -⟩ := Bus.step_invoke hb
    rw [hcalls, Function.update_self, Option.some.injEq] at hr
    exact absurd hr (Op.start_ne_returned _ _)

/-- A step of the connection adds none to those it owns. -/
theorem ConnMove.owns (h : ConnMove s c act out) (hb : BusStep s.bus out.bus s'.bus os)
    (ho : out.conn.Owns s'.bus sub) :
    c.Owns s.bus sub := by
  rcases ho with hholds | hne
  · exact .inl (h.holds hb hholds)
  · rcases h.deliveries hne with hold | ⟨hspawn, -⟩
    · exact .inr hold
    · exact .inl (.inl (by rw [hspawn]; rfl))

/-- What `serve` holds after a step it held before, or its call of `broker.Subscribe` has
    just created it. -/
theorem ConnChange.holds (h : ConnChange s s' bos k c a c' obs) (hb : BusStep s.bus b s'.bus os)
    (hh : c'.Holds s'.bus sub) :
    c.Holds s.bus sub ∨ (sub = s.bus.subs.length ∧ sub < s'.bus.subs.length ∧
      ∃ call, c.serve.awaited = some call ∧ b = some (.subscribe call)) := by
  cases h with
  | move hm hbus => exact .inl (hm.holds hbus hh)
  | _ => exact holds_same hb rfl hh

/-- A delivery goroutine is started for a subscription the connection owns. -/
theorem ConnChange.owns_of_delivery (h : ConnChange s s' bos k c a c' obs)
    (hne : c'.deliveries sub ≠ none) : c.Owns s.bus sub := by
  cases h with
  | move hm hbus => exact hm.owns hbus (.inr hne)
  | _ => exact .inr hne

/-- A connection comes to own a subscription when the broker makes it for its call. -/
theorem ConnChange.owns (h : ConnChange s s' bos k c a c' obs) (hb : BusStep s.bus b s'.bus os)
    (ho : c'.Owns s'.bus sub) :
    c.Owns s.bus sub ∨ (sub = s.bus.subs.length ∧ sub < s'.bus.subs.length ∧
      ∃ call, c.serve.awaited = some call ∧ b = some (.subscribe call)) := by
  rcases ho with hh | hne
  · rcases h.holds hb hh with hold | hnew
    · exact .inl (.inl hold)
    · exact .inr hnew
  · exact .inl (h.owns_of_delivery hne)

/-- A call for which `serve` begins to wait is a new one. -/
theorem ConnChange.awaited (h : ConnChange s s' bos k c a c' obs)
    (hcall : c'.serve.awaited = some call) :
    c'.serve = c.serve ∨ (c'.serve ≠ c.serve ∧ s.bus.calls call = none ∧
      s'.bus.calls call ≠ none) := by
  cases h with
  | move hm hbus =>
    rcases hm.awaited hcall with hsame | ⟨topic, hserve, hserve', hinv⟩
    · exact .inl hsame
    · rw [hinv] at hbus
      obtain ⟨hnone, hcalls, -⟩ := Bus.step_invoke hbus
      refine .inr ⟨?_, hnone, ?_⟩
      · rw [hserve, hserve']
        exact nofun
      · rw [hcalls, Function.update_self]
        exact Option.some_ne_none _
  | _ => exact .inl rfl

end Change

/-- A step inside a call of the broker is a step of the bus alone. -/
theorem ServerEffect.bus_action (h : ServerEffect s a s' os) :
    ∃ b, BusStep s.bus b s'.bus (busLog os) ∧ ∀ act ∈ b, a = .bus act ∨
      (∃ call op, act = .invoke call op) ∨ ∃ sub, act = .receive sub := by
  cases h with
  | bus _ hstep =>
    refine ⟨some _, by simpa [BusStep] using hstep, fun act hact => .inl ?_⟩
    rw [Option.some.inj hact]
  | connBus _ hm hstep =>
    refine ⟨some _, by simpa [BusStep] using hstep, fun act hact => .inr ?_⟩
    rcases hm.bus_cases hact with hcall | ⟨sub, heq, -⟩
    · exact .inl hcall
    · exact .inr ⟨sub, heq⟩
  | beginShutdown _ hstep =>
    refine ⟨some _, by simpa [BusStep] using hstep, fun act hact => .inr (.inl ?_)⟩
    exact ⟨_, _, (Option.some.inj hact).symm⟩
  | conn => exact ⟨none, ⟨rfl, by simp⟩, by simp⟩
  | _ => exact ⟨none, ⟨rfl, rfl⟩, by simp⟩

/-- The calls of other users after a step. -/
theorem ServerEffect.others (h : ServerEffect s a s' os) (hcall : call ∈ s'.others) :
    call ∈ s.others ∨ (s.bus.calls call = none ∧ s'.bus.calls call ≠ none ∧
      s'.connections = s.connections) := by
  cases h with
  | @bus b bus bos hadm hstep =>
    cases b with
    | invoke call' op =>
      rcases List.mem_cons.mp hcall with rfl | hold
      · obtain ⟨hnone, hcalls, -⟩ := Bus.step_invoke hstep
        refine .inr ⟨hnone, ?_, rfl⟩
        rw [hcalls, Function.update_self]
        exact Option.some_ne_none _
      · exact .inl hold
    | _ => exact .inl hcall
  | _ => exact .inl hcall

/-- Each subscription of a connection is its own, and has a delivery goroutine once
    `subscribe` has returned. -/
structure Server.OwnInv (s : Server) : Prop where
  others : ∀ call ∈ s.others, s.bus.calls call ≠ none
  called : ∀ k c call, s.connections k = some c → c.serve.awaited = some call →
    s.bus.calls call ≠ none ∧ call ∉ s.others
  awaits : ∀ k k' c c' call, s.connections k = some c → s.connections k' = some c' →
    c.serve.awaited = some call → c'.serve.awaited = some call → k = k'
  alloc : ∀ k c sub, s.connections k = some c → c.Owns s.bus sub → sub < s.bus.subs.length
  unique : ∀ k k' c c' sub, s.connections k = some c → s.connections k' = some c' →
    c.Owns s.bus sub → c'.Owns s.bus sub → k = k'
  free : ∀ k c sub, s.connections k = some c → c.Owns s.bus sub → s.heldByOthers sub = false
  fresh : ∀ k c sub, s.connections k = some c → c.Holds s.bus sub → c.deliveries sub = none
  stored : ∀ k c topic sub, s.connections k = some c → c.subs.lookup topic = some sub →
    c.serve = .subscribeSpawn sub ∨ c.deliveries sub ≠ none

/-- `ConnChange.owns`, from any connection after the step. -/
private theorem owns_cases (h : ServerEffect s a s' os) {bos : List Obs}
    (hb : BusStep s.bus b s'.bus bos) (hc' : s'.connections k = some c') (ho : c'.Owns s'.bus sub) :
    ∃ c, s.connections k = some c ∧ (c.Owns s.bus sub ∨
      (sub = s.bus.subs.length ∧ sub < s'.bus.subs.length ∧
        ∃ call, c.serve.awaited = some call ∧ b = some (.subscribe call))) := by
  rcases h.conn_cases hc' with ⟨-, rfl, -⟩ | ⟨c, _, hc, -, hch⟩
  · exact absurd ho (Connection.not_owns_new _ _)
  · exact ⟨c, hc, hch.owns hb ho⟩

/-- A step changes at most one connection. -/
theorem ServerEffect.one_conn (h : ServerEffect s a s' os) :
    ∃ k, ∀ k', k' ≠ k → s'.connections k' = s.connections k' := by
  cases h with
  | @accept k | @peerSend k | @conn k | @connBus k | @closeConn k | @drainConn _ _ k =>
    exact ⟨k, fun k' hk => Server.setConn_of_ne _ _ hk⟩
  | _ => exact ⟨0, fun _ _ => rfl⟩

/-- `ConnChange.awaited`, from any connection after the step. -/
private theorem awaited_cases (h : ServerEffect s a s' os) (hc' : s'.connections k = some c')
    (hcall : c'.serve.awaited = some call) :
    (∃ c, s.connections k = some c ∧ c.serve.awaited = some call) ∨
      (s.bus.calls call = none ∧ s'.bus.calls call ≠ none ∧
        s'.connections k ≠ s.connections k) := by
  rcases h.conn_cases hc' with ⟨-, rfl, -⟩ | ⟨c, _, hc, -, hch⟩
  · cases hcall
  · rcases hch.awaited hcall with hsame | ⟨hne, hnone, hsome⟩
    · exact .inl ⟨c, hc, hsame ▸ hcall⟩
    · refine .inr ⟨hnone, hsome, fun heq => hne ?_⟩
      rw [hc', hc, Option.some.injEq] at heq
      rw [heq]

/-- The connection that waits for a call of `broker.Subscribe` is the only one. -/
private theorem awaits_step (h : ServerEffect s a s' os) (hinv : s.OwnInv) {k' : ConnId}
    (hk : s'.connections k = some c) (hk' : s'.connections k' = some c')
    (hcall : c.serve.awaited = some call) (hcall' : c'.serve.awaited = some call) : k = k' := by
  rcases awaited_cases h hk hcall with ⟨c₀, hc₀, h₀⟩ | ⟨hnone, -, hch⟩
  · rcases awaited_cases h hk' hcall' with ⟨c₁, hc₁, h₁⟩ | ⟨hnone, -⟩
    · exact hinv.awaits k k' c₀ c₁ call hc₀ hc₁ h₀ h₁
    · exact absurd hnone (hinv.called k c₀ call hc₀ h₀).1
  · rcases awaited_cases h hk' hcall' with ⟨c₁, hc₁, h₁⟩ | ⟨-, -, hch'⟩
    · exact absurd hnone (hinv.called k' c₁ call hc₁ h₁).1
    · obtain ⟨k₀, hk₀⟩ := h.one_conn
      have e : k = k₀ := Classical.byContradiction fun hne => hch (hk₀ k hne)
      have e' : k' = k₀ := Classical.byContradiction fun hne => hch' (hk₀ k' hne)
      exact e.trans e'.symm

theorem Server.heldByOthers_iff (s : Server) (sub : SubPtr) :
    s.heldByOthers sub = true ↔
      ∃ call ∈ s.others, s.bus.calls call = some (.returned (.subscribed sub)) := by
  simp [Server.heldByOthers]

/-- No other user of the broker is given a subscription of a connection. -/
private theorem free_step (h : ServerEffect s a s' os) (hinv : s.OwnInv)
    (halloc : ∀ c p, s.bus.calls c = some (.returned (.subscribed p)) → p < s.bus.subs.length)
    (hk : s'.connections k = some c') (ho : c'.Owns s'.bus sub) : s'.heldByOthers sub = false := by
  obtain ⟨b, hb⟩ := h.bus_step
  obtain ⟨c, hc, hown⟩ := owns_cases h hb hk ho
  rw [Bool.eq_false_iff]
  intro hheld
  obtain ⟨call, hmem, hr⟩ := (s'.heldByOthers_iff sub).mp hheld
  rcases hb.subscribed hr with hold | ⟨hsub, -, hcall, -⟩
  · -- the call had returned `sub` before the step
    have hin : call ∈ s.others := by
      rcases h.others hmem with hin | ⟨hnone, -⟩
      · exact hin
      · rw [hold] at hnone
        cases hnone
    rcases hown with hown | ⟨hsub, -⟩
    · have := hinv.free k c sub hc hown
      rw [(s.heldByOthers_iff sub).mpr ⟨call, hin, hold⟩] at this
      exact nomatch this
    · exact Nat.ne_of_lt (halloc call sub hold) hsub
  · -- the step creates `sub` for this call
    rcases hown with hown | ⟨-, -, call', hcall', hb'⟩
    · exact Nat.ne_of_lt (hinv.alloc k c sub hc hown) hsub
    · rw [hcall, Option.some.injEq, Action.subscribe.injEq] at hb'
      subst hb'
      obtain ⟨hcalled, hnot⟩ := hinv.called k c call hc hcall'
      rcases h.others hmem with hin | ⟨hnone, -⟩
      · exact hnot hin
      · exact hcalled hnone

/-- A subscription that `serve` holds has no delivery goroutine. -/
private theorem fresh_step (h : ServerEffect s a s' os) (hinv : s.OwnInv)
    (hk : s'.connections k = some c') (hh : c'.Holds s'.bus sub) : c'.deliveries sub = none := by
  obtain ⟨b, hb⟩ := h.bus_step
  rcases h.conn_cases hk with ⟨-, rfl, -⟩ | ⟨c, _, hc, -, hch⟩
  · rfl
  refine Classical.byContradiction fun hne => ?_
  rcases hch.holds hb hh with hold | ⟨hsub, -⟩
  · have hbefore := hinv.fresh k c sub hc hold
    cases hch with
    | move hm hbus =>
      rcases hm.deliveries hne with hwas | ⟨-, hserve⟩
      · exact hwas hbefore
      · -- `serve` has let go of the subscription whose goroutine it started
        rcases hh with hheld | ⟨call, hcall, -⟩
        · rw [hserve] at hheld
          cases hheld
        · rw [hserve] at hcall
          cases hcall
    | _ => exact hne hbefore
  · exact Nat.ne_of_lt (hinv.alloc k c sub hc (hch.owns_of_delivery hne)) hsub

/-- A stored subscription has its goroutine, or is about to get it. -/
private theorem stored_step (h : ServerEffect s a s' os) (hinv : s.OwnInv)
    (hk : s'.connections k = some c') (hl : c'.subs.lookup topic = some sub) :
    c'.serve = .subscribeSpawn sub ∨ c'.deliveries sub ≠ none := by
  rcases h.conn_cases hk with ⟨-, rfl, -⟩ | ⟨c, _, hc, -, hch⟩
  · cases hl
  have hbefore := hinv.stored k c topic sub hc
  cases hch with
  | move hm =>
    rcases hm.stored hl with hold | hspawn
    · rcases hbefore hold with hserve | hne
      · rcases hm.spawned hserve with hspawn | hran
        · exact .inl hspawn
        · exact .inr (by rw [hran]; exact Option.some_ne_none _)
      · exact .inr ((hm.deliveryStep _).known hne)
    · exact .inl hspawn
  | _ => exact hbefore hl

/-- A step keeps the ownership of subscriptions. -/
theorem own_step (h : ServerEffect s a s' os) (hinv : s.OwnInv)
    (halloc : ∀ c p, s.bus.calls c = some (.returned (.subscribed p)) → p < s.bus.subs.length) :
    s'.OwnInv where
  others call hcall := by
    obtain ⟨b, hb⟩ := h.bus_step
    rcases h.others hcall with hold | ⟨-, hsome, -⟩
    · exact hb.called (hinv.others call hold)
    · exact hsome
  called k c call hk hcall := by
    obtain ⟨b, hb⟩ := h.bus_step
    rcases awaited_cases h hk hcall with ⟨c₀, hc₀, h₀⟩ | ⟨hnone, hsome, hch⟩
    · obtain ⟨hcalled, hnot⟩ := hinv.called k c₀ call hc₀ h₀
      refine ⟨hb.called hcalled, fun hmem => ?_⟩
      rcases h.others hmem with hold | ⟨hnone, -⟩
      · exact hnot hold
      · exact hcalled hnone
    · refine ⟨hsome, fun hmem => ?_⟩
      rcases h.others hmem with hold | ⟨-, -, hsame⟩
      · exact hinv.others call hold hnone
      · exact hch (congrFun hsame k)
  awaits k k' c c' call hk hk' := awaits_step h hinv hk hk'
  alloc k c' sub hk ho := by
    obtain ⟨b, hb⟩ := h.bus_step
    obtain ⟨c, hc, hown | ⟨-, hlt, -⟩⟩ := owns_cases h hb hk ho
    · exact hb.alloc (hinv.alloc k c sub hc hown)
    · exact hlt
  unique k k' c c' sub hk hk' ho ho' := by
    obtain ⟨b, hb⟩ := h.bus_step
    obtain ⟨c₀, hc₀, hown⟩ := owns_cases h hb hk ho
    obtain ⟨c₁, hc₁, hown'⟩ := owns_cases h hb hk' ho'
    rcases hown with hown | ⟨hsub, -, call, hcall, hsubscribe⟩
    · rcases hown' with hown' | ⟨hsub, -⟩
      · exact hinv.unique k k' c₀ c₁ sub hc₀ hc₁ hown hown'
      · exact absurd hsub (Nat.ne_of_lt (hinv.alloc k c₀ sub hc₀ hown))
    · rcases hown' with hown' | ⟨-, -, call', hcall', hsubscribe'⟩
      · exact absurd hsub (Nat.ne_of_lt (hinv.alloc k' c₁ sub hc₁ hown'))
      · -- one step serves one call
        rw [hsubscribe, Option.some.injEq, Action.subscribe.injEq] at hsubscribe'
        subst hsubscribe'
        exact hinv.awaits k k' c₀ c₁ call hc₀ hc₁ hcall hcall'
  free k c sub := free_step h hinv halloc
  fresh k c sub := fresh_step h hinv
  stored k c topic sub := stored_step h hinv

/-- The ownership invariant. -/
theorem own_inv {config : Config} {G : Server → ServerAction → Prop} {log : List ServerObs}
    (h : (Server.lts config).Reach G log s) : s.OwnInv := by
  refine h.induct_reach (P := fun _ s => s.OwnInv) ?_ ?_
  · rintro _ rfl
    refine ⟨?_, ?_, ?_, ?_, ?_, ?_, ?_, ?_⟩ <;> simp [newServer]
  · intro log s a s' os hr hinv _ hstep
    exact own_step (server_step_effect hstep) hinv fun c p =>
      subscribed_alloc (Server.reach_bus hr)

/-- A stored subscription is owned. -/
theorem Server.OwnInv.owns_stored (hinv : s.OwnInv) (hc : s.connections k = some c)
    (hl : c.subs.lookup topic = some sub) : c.Owns s.bus sub := by
  rcases hinv.stored k c topic sub hc hl with hserve | hne
  · exact .inl (.inl (by rw [hserve]; rfl))
  · exact .inr hne

end EventBus
