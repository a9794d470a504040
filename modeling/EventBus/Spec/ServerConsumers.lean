import EventBus.Spec.ServerCalls

/-!
# Every registered subscription has a consumer

A subscription that a connection has stored in `c.subs` is drained by the delivery
goroutine that `subscribe` started for it. The goroutine ends when the channel of the
subscription ends, after the subscription has left the broker's registry. It also ends
when `deliver` gives up, and `deliver` does not tell the broker: the subscription then
stays registered with nobody to receive from it (`abandoned_subscription`). In runs in
which this does not happen, every registered subscription is served
(`subscription_consumed`).

## Key results

- `subscription_consumed`: no consumer-less subscription where no `deliver` gives up
- `abandoned_subscription`: three timeouts leave a subscription without a consumer
-/

namespace EventBus

variable {pc : DeliverPc} {w w' : Bus} {b : Option Action} {os : List Obs} {sub : SubPtr}
  {c : Connection} {s : Server}

/-- The delivery goroutine will receive from the channel again, or is about to learn that
    it has ended. -/
def DeliverPc.running : DeliverPc → Bool
  | .leaving _ false | .ending | .ended => false
  | _ => true

/-- The subscription whose `deliver` gives up with this step: the event cannot be encoded,
    the write fails, or the last attempt ends without `ackDelivered`. -/
def Connection.givesUp (c : Connection) : ConnAction → Option SubPtr
  | .deliverRegister sub =>
    match c.deliveries sub with
    | some (.registering x) =>
      match encodeEvent x.event with
      | .error _ => some sub
      | .ok _ => none
    | _ => none
  | .deliverSendFails sub => some sub
  | .deliverTimeout sub =>
    match c.deliveries sub with
    | some (.waiting _ _ _ attempt) => if deliveryMaxAttempts ≤ attempt then some sub else none
    | _ => none
  | .deliverAcknowledged sub =>
    match c.deliveries sub with
    | some (.waiting _ _ ch attempt) =>
      match c.acks[ch]? with
      | some acknowledged =>
        -- `ackDelivered` at any attempt is a success
        if deliveryMaxAttempts ≤ attempt ∧ acknowledged.buf.head? ≠ some ackDelivered then some sub
        else none
      | none => none
    | _ => none
  | _ => none

/-- No `deliver` gives up on an open connection while its subscription is registered. -/
def NoGiveUp (s : Server) : ServerAction → Prop
  | .conn k a => ∀ c ∈ s.connections k, ∀ sub ∈ c.givesUp a,
      c.closed = true ∨ sub ∉ s.bus.broker.allRegistered
  | _ => True

instance (s : Server) (a : ServerAction) : Decidable (NoGiveUp s a) :=
  match a with
  | .conn k a => inferInstanceAs (Decidable (∀ c ∈ s.connections k, ∀ sub ∈ c.givesUp a,
      c.closed = true ∨ sub ∉ s.bus.broker.allRegistered))
  | .bus _ | .accept _ | .peerSend .. | .removeConnection _ | .gracefulShutdown ..
  | .beginShutdown _ | .beginReturn | .drainConn | .drainReturn | .close _ | .closeConn
  | .closeConnReturn | .closeReturn => .isTrue trivial

section Move

variable {a : ConnAction} {out : Out}

/-- A connection stays closed. -/
theorem ConnMove.closed_mono (h : ConnMove s c a out) (hcl : c.closed = true) :
    out.conn.closed = true := by
  cases h with
  | closeTransport | closeStart => rfl
  | _ => exact hcl

private theorem nextAttempt_running {x : Copy} {payload : Bytes} {ch : AckChan} {attempt : Nat}
    (h : ¬deliveryMaxAttempts ≤ attempt) :
    (Connection.nextAttempt x payload ch attempt).running = true := by
  unfold Connection.nextAttempt
  rw [if_pos (by omega)]
  rfl

/-- A step of the goroutine that keeps it running, makes it give up or ends its loop. -/
private theorem DeliverMove.running {pc' : DeliverPc} {bus : Option Action} {obs : List ConnObs}
    (h : DeliverMove s c sub a pc pc' bus obs) (hpc : c.deliveries sub = some pc) :
    pc'.running = true ∨ pc.running = false ∨ c.givesUp a = some sub ∨
      ∃ subscription, s.bus.subs[sub]? = some subscription ∧ subscription.events.closed = true := by
  cases h with
  | receive | send => exact .inl rfl
  | receiveEnd hs _ hcl => exact .inr (.inr (.inr ⟨_, hs, hcl⟩))
  | encodeFails herr =>
    refine .inr (.inr (.inl ?_))
    simp only [Connection.givesUp, hpc, herr]
  | sendFails => exact .inr (.inr (.inl rfl))
  | @timeout x payload ch attempt =>
    by_cases hlast : deliveryMaxAttempts ≤ attempt
    · refine .inr (.inr (.inl ?_))
      simp only [Connection.givesUp, hpc, if_pos hlast]
    · exact .inl (nextAttempt_running hlast)

/-- A running goroutine keeps running, gives up, or has seen the end of its channel. -/
private theorem DeliveryStep.running {pc' : Option DeliverPc} {bus : Option Action}
    {obs : List ConnObs} (h : DeliveryStep s c sub a (some pc) pc' bus obs)
    (hpc : c.deliveries sub = some pc) (hrun : pc.running = true) :
    (∃ pc₁, pc' = some pc₁ ∧ pc₁.running = true) ∨ c.givesUp a = some sub ∨
      ∃ subscription, s.bus.subs[sub]? = some subscription ∧ subscription.events.closed = true := by
  cases h with
  | other => exact .inl ⟨pc, rfl, hrun⟩
  | spawn | register => exact .inl ⟨_, rfl, rfl⟩
  | move hm =>
    rcases hm.running hpc with hrun' | hnot | hgive | hend
    · exact .inl ⟨_, rfl, hrun'⟩
    · rw [hrun] at hnot
      cases hnot
    · exact .inr (.inl hgive)
    · exact .inr (.inr hend)
  | @acknowledged x payload ch attempt chan chan' status hch hrecv =>
    obtain ⟨hbuf, -, -⟩ := Chan.receive_some hrecv
    by_cases hstatus : status = ackDelivered
    · refine .inl ⟨_, rfl, ?_⟩
      rw [if_pos hstatus]
      rfl
    by_cases hlast : deliveryMaxAttempts ≤ attempt
    · refine .inr (.inl ?_)
      simp only [Connection.givesUp, hpc, hch, hbuf, List.head?_cons]
      rw [if_pos ⟨hlast, fun heq => hstatus (Option.some.inj heq)⟩]
    · refine .inl ⟨_, rfl, ?_⟩
      rw [if_neg hstatus]
      exact nextAttempt_running hlast
  | @leave x ok =>
    cases ok with
    | false => cases hrun
    | true => exact .inl ⟨.ranging, rfl, rfl⟩
  | ended => cases hrun

end Move

/-- Subscription `sub` of connection `c` needs no consumer, or has one. -/
def Connection.Served (c : Connection) (w : Bus) (sub : SubPtr) : Prop :=
  c.closed = true ∨ c.serve = .subscribeSpawn sub ∨ w.Unregistered sub ∨
    ∃ pc, c.deliveries sub = some pc ∧ pc.running = true

theorem unregistered_iff_not_mem (w : Bus) (sub : SubPtr) :
    w.Unregistered sub ↔ sub ∉ w.broker.allRegistered := by
  rw [w.unregistered_iff, Broker.mem_allRegistered, not_exists]

theorem BusStep.unregistered (h : BusStep w b w' os) (halloc : sub < w.subs.length)
    (hun : w.Unregistered sub) :
    w'.Unregistered sub := by
  cases b with
  | none => rw [h.1]; exact hun
  | some b => exact unregistered_step (step_effect h) halloc hun

section Step

variable {s' : Server} {a : ConnAction} {out : Out}

private theorem ConnMove.served (h : ConnMove s c a out) (hb : BusStep s.bus out.bus s'.bus os)
    (hreg : s.bus.RegistryInv) (hinv : ∀ p sub, s.bus.subs[p]? = some sub → s.bus.SubInv p sub)
    (halloc : sub < s.bus.subs.length)
    (hguard : ∀ sub ∈ c.givesUp a, c.closed = true ∨ sub ∉ s.bus.broker.allRegistered)
    (hserved : c.Served s.bus sub) : out.conn.Served s'.bus sub := by
  rcases hserved with hcl | hserve | hun | ⟨pc, hpc, hrun⟩
  · exact .inl (h.closed_mono hcl)
  · rcases h.spawned hserve with hspawn | hran
    · exact .inr (.inl hspawn)
    · exact .inr (.inr (.inr ⟨.ranging, hran, rfl⟩))
  · exact .inr (.inr (.inl (hb.unregistered halloc hun)))
  · rcases (hpc ▸ h.deliveryStep sub).running hpc hrun with hrun' | hgive | ⟨subscription, hs, hcl⟩
    · exact .inr (.inr (.inr hrun'))
    · rcases hguard sub hgive with hcl | hun
      · exact .inl (h.closed_mono hcl)
      · have hun := (unregistered_iff_not_mem s.bus sub).mpr hun
        exact .inr (.inr (.inl (hb.unregistered halloc hun)))
    · -- the channel is closed inside `Do`, which is entered after deregistration
      have hfin := (hinv sub subscription hs).ended.mp hcl
      have hun := hreg.entered sub subscription hs (by rw [hfin]; exact nofun)
      exact .inr (.inr (.inl (hb.unregistered halloc hun)))

end Step

/-- Where the connection does not move, only the registry can have changed. -/
theorem Connection.Served.frame {c' : Connection} (h : c.Served w sub) (hb : BusStep w b w' os)
    (halloc : sub < w.subs.length) (hclosed : c'.closed = c.closed) (hserve : c'.serve = c.serve)
    (hdel : c'.deliveries = c.deliveries) : c'.Served w' sub := by
  unfold Connection.Served
  rw [hclosed, hserve, hdel]
  rcases h with hcl | hspawn | hun | hrun
  · exact .inl hcl
  · exact .inr (.inl hspawn)
  · exact .inr (.inr (.inl (hb.unregistered halloc hun)))
  · exact .inr (.inr (.inr hrun))

theorem served_inv {config : Config} {log : List ServerObs}
    (h : (Server.lts config).Reach NoGiveUp log s) {k : ConnId} {topic : Bytes}
    (hc : s.connections k = some c) (hl : c.subs.lookup topic = some sub) :
    c.Served s.bus sub := by
  refine Server.conn_induct h hc
    (I := fun _ w c => c.subs.lookup topic = some sub → c.Served w sub) (fun _ => nofun) ?_ hl
  intro log s a s' os c c' obs b hr _ hc _ hg hb hch hbefore hl'
  have hbus := Server.reach_bus hr
  have halloc : c.subs.lookup topic = some sub → sub < s.bus.subs.length :=
    fun hl => (own_inv hr).alloc k c sub hc ((own_inv hr).owns_stored hc hl)
  cases hch with
  | move hm hbstep =>
    rcases hm.stored hl' with hold | hspawn
    · exact hm.served hbstep (registry_inv hbus) (fun p sub => sub_inv hbus) (halloc hold)
        (hg c hc) (hbefore hold)
    · exact .inr (.inl hspawn)
  | _ => exact (hbefore hl').frame hb (halloc hl') rfl rfl rfl

/-- In a run in which no `deliver` gives up on an open connection while its subscription is
    registered, every subscription that an open connection has stored and that is still
    registered has a delivery goroutine that will receive from its channel. -/
theorem subscription_consumed (config : Config) (log : List ServerObs) (s : Server)
    (h : (Server.lts config).Reach NoGiveUp log s) (k : ConnId) (c : Connection) (topic : Bytes)
    (sub : SubPtr) (hc : s.connections k = some c) (hopen : c.closed = false)
    (hstored : c.subs.lookup topic = some sub) (hreturned : c.serve ≠ .subscribeSpawn sub)
    (hreg : sub ∈ s.bus.broker.allRegistered) :
    ∃ pc, c.deliveries sub = some pc ∧ pc.running = true := by
  rcases served_inv h hc hstored with hcl | hspawn | hun | hrun
  · rw [hopen] at hcl
    cases hcl
  · exact absurd hspawn hreturned
  · exact absurd hreg ((unregistered_iff_not_mem s.bus sub).mp hun)
  · exact hrun

/-! ## Runs -/

/-- Connection `k` is accepted and subscribes to the topic `t`, as call `call`. -/
def subscribeRun (k : ConnId) (call : CallId) : List ServerAction :=
  [.accept k, .peerSend k ⟨typeConnect, [0, 0]⟩, .conn k .serveRead,
    .peerSend k ⟨typeSubscribe, [0, 1, 116]⟩, .conn k .serveRead, .conn k .serveDispatch,
    .conn k .subscribeLock, .conn k .isDraining, .conn k .isDrainingConn,
    .conn k (.subscribeCall call), .bus (.subscribe call), .conn k .subscribeReturn,
    .conn k .subscribeStore, .conn k .subscribeSpawn, .conn k .subscribeUnlock]

/-- Another user of the broker publishes an event with this ID to the topic `t`, whose only
    subscription is `sub`, as call `call`. -/
def publishRun (call : CallId) (id : Bytes) (sub : SubPtr) : List ServerAction :=
  [.bus (.invoke call (.publishWithResult .background ⟨id, [], [116], [], []⟩)),
    .bus (.publishEnter call [sub] []), .bus (.enqueueEnter call), .bus (.enqueueCheck call),
    .bus (.enqueueSend call), .bus (.enqueueReturn call), .bus (.publishLeave call [])]

/-- The client acknowledges the event, and the goroutine is back at its channel. -/
theorem subscription_consumed_acknowledged :
    ∃ log s c, (Server.lts ⟨1, 0, 0, .block⟩).Reach NoGiveUp log s ∧
      s.connections 0 = some c ∧ c.closed = false ∧ c.subs.lookup [116] = some 0 ∧
      c.serve ≠ .subscribeSpawn 0 ∧ 0 ∈ s.bus.broker.allRegistered ∧
      ∃ pc, c.deliveries 0 = some pc ∧ pc.running = true := by
  obtain ⟨log, s, hr, c, hc, hopen, hstored, hserve, hreg⟩ :=
    Lts.reach_of_runWhere (M := Server.lts ⟨1, 0, 0, .block⟩) (G := NoGiveUp) rfl
      (subscribeRun 0 0 ++ publishRun 1 [1] 0 ++
        [ServerAction.conn 0 (.deliverReceive 0), .conn 0 (.deliverRegister 0),
          .conn 0 (.deliverSend 0), .conn 0 (.deliverTimeout 0), .conn 0 (.deliverSend 0),
          .peerSend 0 ⟨typeAck, [0, 1, 1, 4, 0, 0]⟩, .conn 0 .serveRead, .conn 0 .serveDispatch,
          .conn 0 .acknowledgeSend, .conn 0 (.deliverAcknowledged 0), .conn 0 (.deliverLeave 0)])
      (Q := fun r => ∃ c ∈ r.1.connections 0, c.closed = false ∧
        c.subs.lookup [116] = some 0 ∧ c.serve ≠ .subscribeSpawn 0 ∧
        0 ∈ r.1.bus.broker.allRegistered)
      (by decide)
  exact ⟨log, s, c, hr, hc, hopen, hstored, hserve, hreg,
    subscription_consumed _ log s hr 0 c [116] 0 hc hopen hstored hserve hreg⟩

/-- Three attempts without an ACK: on an open connection of an open server the goroutine
    has ended, and the subscription is still stored and still registered. -/
theorem abandoned_subscription :
    ∃ log s, (Server.lts ⟨1, 0, 0, .block⟩).Reach Lts.Always log s ∧ s.closed = false ∧
      s.draining = false ∧ ∃ c ∈ s.connections 0, c.closed = false ∧ c.serve = .reading ∧
        c.subs.lookup [116] = some 0 ∧ 0 ∈ s.bus.broker.allRegistered ∧
        c.deliveries 0 = some .ended :=
  Lts.reach_of_runWhere (M := Server.lts ⟨1, 0, 0, .block⟩) (G := Lts.Always) rfl
    (subscribeRun 0 0 ++ publishRun 1 [1] 0 ++
      [ServerAction.conn 0 (.deliverReceive 0), .conn 0 (.deliverRegister 0),
        .conn 0 (.deliverSend 0), .conn 0 (.deliverTimeout 0), .conn 0 (.deliverSend 0),
        .conn 0 (.deliverTimeout 0), .conn 0 (.deliverSend 0), .conn 0 (.deliverTimeout 0),
        .conn 0 (.deliverLeave 0), .conn 0 (.deliverEnd 0)])
    (Q := fun r => r.1.closed = false ∧ r.1.draining = false ∧
      ∃ c ∈ r.1.connections 0, c.closed = false ∧ c.serve = .reading ∧
        c.subs.lookup [116] = some 0 ∧ 0 ∈ r.1.bus.broker.allRegistered ∧
        c.deliveries 0 = some .ended)
    (by decide)

end EventBus
