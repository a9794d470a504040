import EventBus.Spec.ServerConsumers
import EventBus.Spec.ServerFrames
import EventBus.Spec.SessionStep

/-!
# Ordered delivery to a client

`readLoop` puts events on `c.events` in the order in which it reads them and leaves some
out. A client that subscribes once to a topic therefore gets the events of the topic in the
order in which the one delivery goroutine wrote them, some copies missing.

## Key results

- `exposed_frames`: the events on `c.events` are events of the frames read, in order
- `stop_and_wait`: ordered delivery from the queue of a subscription to the client
-/

namespace EventBus

/-! ## What the client exposes -/

/-- The events of a topic that `readLoop` put on `c.events`. -/
def exposures (topic : Bytes) (log : List ClientObs) : List Event :=
  log.filterMap fun
    | .put event => if event.topic = topic then some event else none
    | _ => none

@[simp] theorem exposures_append (topic : Bytes) (log log' : List ClientObs) :
    exposures topic (log ++ log') = exposures topic log ++ exposures topic log' :=
  List.filterMap_append

/-- The event of a topic that `readLoop` has in hand. -/
def ReadPc.exposing (topic : Bytes) : ReadPc → List Event
  | .handle frame => (eventOf topic frame).toList
  | .put event => if event.topic = topic then [event] else []
  | _ => []

theorem exposing_readAcknowledgePc (topic : Bytes) (pc : ClientPc) :
    (Client.readAcknowledgePc pc).exposing topic = [] := by
  cases pc <;> rfl

/-- `readLoop` goes on with the event of the frame, or with none. -/
theorem exposing_handleNext (topic : Bytes) (c : Client) (frame : Frame) :
    ((c.handleNext frame).exposing topic).Sublist (eventOf topic frame).toList := by
  have h := c.handled frame
  generalize c.handleNext frame = pc at h
  cases h with
  | suppressed =>
    rw [exposing_readAcknowledgePc]
    exact List.nil_sublist _
  | expose htype hdec =>
    simp only [ReadPc.exposing, eventOf, htype, hdec, if_true]
    split <;> simp
  | _ => exact List.nil_sublist _

theorem CallMove.exposes {c : Client} {call : ClientCall} {a : CallAction} {pc : ClientPc}
    {out : CallOut} (h : CallMove c call a pc out) (topic : Bytes) :
    out.client.reader = c.reader ∧ exposures topic out.obs = [] := by
  obtain ⟨_, _, _, _, heq⟩ := h.client_eq
  refine ⟨by rw [heq], ?_⟩
  cases h <;> rfl

theorem exposures_returnObs (topic : Bytes) (call : ClientCall) (pc : ClientPc) :
    exposures topic (Client.returnObs call pc) = [] := by
  cases pc <;> rfl

/-- One step: what is put or in hand afterwards was in hand, or has just been read. -/
theorem ClientEffect.exposes {c c' : Client} {a : ClientAction} {os : List ClientObs}
    (h : ClientEffect c a c' os) (topic : Bytes) :
    (exposures topic os ++ c'.reader.exposing topic).Sublist
      (c.reader.exposing topic ++ (os.filterMap ClientObs.read?).filterMap (eventOf topic)) := by
  cases h with
  | read _ hpc =>
    rw [hpc]
    show ((eventOf topic _).toList).Sublist ([_].filterMap (eventOf topic))
    rw [List.filterMap_cons]
    split <;> simp [*]
  | dispatch hpc =>
    rw [hpc]
    show ((c.handleNext _).exposing topic).Sublist ((eventOf topic _).toList ++ [])
    rw [List.append_nil]
    exact exposing_handleNext topic c _
  | @put event _ hpc =>
    rw [hpc]
    show (exposures topic [.put event] ++ []).Sublist
      ((if event.topic = topic then [event] else []) ++ [])
    by_cases ht : event.topic = topic <;> simp [exposures, ht]
  | @invoke call op =>
    have hobs : exposures topic (.invoked call op :: Client.returnObs call op.start) = [] :=
      exposures_returnObs topic call op.start
    rw [hobs]
    exact List.sublist_append_left _ _
  | @call call a pc out _ hm =>
    rw [exposures_append, exposures_returnObs, (hm.exposes topic).2]
    show (out.client.reader.exposing topic).Sublist _
    rw [(hm.exposes topic).1]
    exact List.sublist_append_left _ _
  | readAcknowledge hpc hm =>
    rw [(hm.exposes topic).2]
    show ((Client.readAcknowledgePc _).exposing topic).Sublist _
    rw [exposing_readAcknowledgePc]
    exact List.nil_sublist _
  | peerSend | close | closeConn | receive | receiveShutdown | readClose =>
    exact List.sublist_append_left _ _
  | _ => exact List.nil_sublist _

/-- The events of a topic on `c.events` are events of the frames read, in order. -/
theorem exposed_frames {G : Client → ClientAction → Prop} {log : List ClientObs} {c : Client}
    (h : Client.lts.Reach G log c) (topic : Bytes) :
    (exposures topic log).Sublist ((log.filterMap ClientObs.read?).filterMap (eventOf topic)) := by
  have hinv : (exposures topic log ++ c.reader.exposing topic).Sublist
      ((log.filterMap ClientObs.read?).filterMap (eventOf topic)) := by
    refine h.invariant (P := fun log c => (exposures topic log ++ c.reader.exposing topic).Sublist
      ((log.filterMap ClientObs.read?).filterMap (eventOf topic))) ?_ ?_
    · rintro _ rfl
      exact .slnil
    · intro log c a c' os hinv _ hstep
      rw [exposures_append, List.filterMap_append, List.filterMap_append]
      exact hinv.through ((client_step_effect hstep).exposes topic)
  exact (List.sublist_append_left _ _).trans hinv

/-! ## Delivery -/

/-- The frames of the calls of `deliver` carry their events. -/
theorem StopAndWait.events {L : List ConnObs} {recv : List Copy} {sub : SubPtr}
    {rows : List Delivery} {topic : Bytes} (h : StopAndWait L recv sub rows)
    (htopic : ∀ x ∈ recv, x.event.topic = topic) :
    (deliveryFrames sub L).filterMap (fun p => eventOf topic p.2) =
      rows.flatMap fun d => List.replicate d.attempts d.x.event := by
  rw [h.frames, List.filterMap_flatMap]
  apply List.flatMap_congr
  intro d hd
  have hx : d.x ∈ recv := h.received.subset (List.mem_map_of_mem hd)
  have hev : eventOf topic ⟨typeEvent, d.payload⟩ = some d.x.event := by
    rw [eventOf_encode (h.encoded d hd), if_pos (htopic d.x hx)]
  simp [Delivery.frames, hev]

/-- Stop-and-wait delivery. What a delivery goroutine writes are the events it receives, in
    order, each one to three times and each acknowledged before the next; and a client that
    subscribes once to the topic is given them in this order, some copies left out. -/
theorem stop_and_wait (config : Config) (k : ConnId) (sub : SubPtr) :
    (∀ log s, (Server.lts config).Reach Lts.Always log s →
      ∃ rows, StopAndWait (connLog k log) (receivedFrom (busLog log) sub) sub rows) ∧
    ∀ log s c subscription, (Session.lts config k).Reach Lts.Always log s →
      s.server.connections k = some c → c.deliveries sub ≠ none →
      s.server.bus.subs[sub]? = some subscription →
      (subscribeCalls subscription.topic (connLog k (serverLog log))).length ≤ 1 →
      ∃ rows, StopAndWait (connLog k (serverLog log))
          (receivedFrom (busLog (serverLog log)) sub) sub rows ∧
        ∃ copies : List (Delivery × Nat), copies.map Prod.fst = rows ∧
          (∀ p ∈ copies, p.2 ≤ p.1.attempts) ∧
          exposures subscription.topic (clientLog log) =
            copies.flatMap fun p => List.replicate p.2 p.1.x.event := by
  refine ⟨fun log s h => delivery_rows h k sub, ?_⟩
  intro log s c subscription h hc hd hs honce
  have hserver := Session.reach_server h
  obtain ⟨rows, hrows⟩ := delivery_rows hserver k sub
  have htopic : ∀ x ∈ receivedFrom (busLog (serverLog log)) sub,
      x.event.topic = subscription.topic := by
    intro x hx
    obtain ⟨subscription', hs', heq⟩ := received_topic (Server.reach_bus hserver) hx
    rw [hs, Option.some.injEq] at hs'
    rw [hs', heq]
  -- what the client exposes is part of what it has read, which is part of what was written
  have hexposed : (exposures subscription.topic (clientLog log)).Sublist
      (rows.flatMap fun d => List.replicate d.attempts d.x.event) := by
    rw [← hrows.events htopic, ← topic_frames hserver hc hd hs honce, (wire_inv h).toClient,
      List.filterMap_append]
    exact (exposed_frames (Session.reach_client h) _).trans (List.sublist_append_left _ _)
  have hcopies := List.Sublist.flatMap_replicate (n := Delivery.attempts) (f := fun d => d.x.event)
    hexposed
  exact ⟨rows, hrows, hcopies⟩

/-! ## Runs -/

/-- The client of connection 0 subscribes to the topic `t`. -/
def clientSubscribeRun : List SessionAction :=
  dialRun 0 ++ sendRun 0 0 (.subscribe [116]) ++
    serverRun [.conn 0 .subscribeLock, .conn 0 .isDraining, .conn 0 .isDrainingConn,
      .conn 0 (.subscribeCall 0), .bus (.subscribe 0), .conn 0 .subscribeReturn,
      .conn 0 .subscribeStore, .conn 0 .subscribeSpawn, .conn 0 .subscribeUnlock]

/-- The first of two events is written twice. The client exposes it once and acknowledges
    both copies, the second by itself. -/
theorem stop_and_wait_two_events :
    ∃ log s c subscription, (Session.lts ⟨2, 0, 0, .block⟩ 0).Reach Lts.Always log s ∧
      s.server.connections 0 = some c ∧ c.deliveries 0 ≠ none ∧
      s.server.bus.subs[0]? = some subscription ∧
      deliveryFrames 0 (connLog 0 (serverLog log)) =
        [(0, ⟨typeEvent, [0, 1, 1, 0, 0, 0, 1, 116, 0, 0, 0, 0, 0, 0]⟩),
          (0, ⟨typeEvent, [0, 1, 1, 0, 0, 0, 1, 116, 0, 0, 0, 0, 0, 0]⟩),
          (1, ⟨typeEvent, [0, 1, 2, 0, 0, 0, 1, 116, 0, 0, 0, 0, 0, 0]⟩)] ∧
      exposures subscription.topic (clientLog log) =
        [⟨[1], [], [116], [], []⟩, ⟨[2], [], [116], [], []⟩] ∧
      ∃ rows, StopAndWait (connLog 0 (serverLog log))
          (receivedFrom (busLog (serverLog log)) 0) 0 rows ∧
        ∃ copies : List (Delivery × Nat), copies.map Prod.fst = rows ∧
          (∀ p ∈ copies, p.2 ≤ p.1.attempts) ∧
          exposures subscription.topic (clientLog log) =
            copies.flatMap fun p => List.replicate p.2 p.1.x.event := by
  obtain ⟨log, s, hr, c, hc, subscription, hs, hd, hframes, hexp, honce⟩ :=
    Lts.reach_of_runWhere (M := Session.lts ⟨2, 0, 0, .block⟩ 0) (G := Lts.Always) rfl
      (clientSubscribeRun ++ serverRun (publishRun 1 [1] 0 ++ publishRun 2 [2] 0 ++
        [ServerAction.conn 0 (.deliverReceive 0), .conn 0 (.deliverRegister 0),
          .conn 0 (.deliverSend 0), .conn 0 (.deliverTimeout 0), .conn 0 (.deliverSend 0)]) ++
        clientRun [.read, .dispatch, .put, .receive] ++
        sendRun 0 1 (.acknowledge [1]) ++
        clientRun [.call 1 .remember, .read, .dispatch, .readAcknowledge .check,
          .readAcknowledge .write, .readAcknowledge .remember] ++
        serverRun [.conn 0 .acknowledgeSend, .conn 0 (.deliverAcknowledged 0),
          .conn 0 (.deliverLeave 0), .conn 0 (.deliverReceive 0), .conn 0 (.deliverRegister 0),
          .conn 0 (.deliverSend 0)] ++ clientRun [.read, .dispatch, .put])
      (Q := fun r => ∃ c ∈ r.1.server.connections 0, ∃ subscription ∈ r.1.server.bus.subs[0]?,
        c.deliveries 0 ≠ none ∧
        deliveryFrames 0 (connLog 0 (serverLog r.2)) =
          [(0, ⟨typeEvent, [0, 1, 1, 0, 0, 0, 1, 116, 0, 0, 0, 0, 0, 0]⟩),
            (0, ⟨typeEvent, [0, 1, 1, 0, 0, 0, 1, 116, 0, 0, 0, 0, 0, 0]⟩),
            (1, ⟨typeEvent, [0, 1, 2, 0, 0, 0, 1, 116, 0, 0, 0, 0, 0, 0]⟩)] ∧
        exposures subscription.topic (clientLog r.2) =
          [⟨[1], [], [116], [], []⟩, ⟨[2], [], [116], [], []⟩] ∧
        (subscribeCalls subscription.topic (connLog 0 (serverLog r.2))).length ≤ 1)
      (by decide)
  exact ⟨log, s, c, subscription, hr, hc, hd, hs, hframes, hexp,
    (stop_and_wait _ 0 0).2 log s c subscription hr hc hd hs honce⟩

/-- An ACK that is read before its delivery has entered its channel in `c.pendingAck`, and
    looked up after that, is credited: the next event is written although no ACK was read
    in between. -/
theorem ack_read_early :
    ∃ log s, (Server.lts ⟨2, 0, 0, .block⟩).Reach Lts.Always log s ∧
      connLog 0 log =
        [.read ⟨typeConnect, [0, 0]⟩, .read ⟨typeSubscribe, [0, 1, 116]⟩, .subscribing [116] 0,
          .read ⟨typeAck, [0, 1, 1, 4, 0, 0]⟩,
          .registered 0 0 ⟨1, ⟨[1], [], [116], [], []⟩⟩,
          .wrote (.delivery 0 0) ⟨typeEvent, [0, 1, 1, 0, 0, 0, 1, 116, 0, 0, 0, 0, 0, 0]⟩,
          .looked ⟨[1], ackDelivered, []⟩ (some 0),
          .delivered 0 ⟨1, ⟨[1], [], [116], [], []⟩⟩ true,
          .registered 0 1 ⟨2, ⟨[2], [], [116], [], []⟩⟩,
          .wrote (.delivery 0 1) ⟨typeEvent, [0, 1, 2, 0, 0, 0, 1, 116, 0, 0, 0, 0, 0, 0]⟩] ∧
      ∀ frame, ¬(connLog 0 log).Precedes (.registered 0 0 ⟨1, ⟨[1], [], [116], [], []⟩⟩)
        (.read frame) := by
  obtain ⟨log, s, hr, hlog⟩ :=
    Lts.reach_of_runWhere (M := Server.lts ⟨2, 0, 0, .block⟩) (G := Lts.Always) rfl
      (subscribeRun 0 0 ++ publishRun 1 [1] 0 ++ publishRun 2 [2] 0 ++
        [ServerAction.peerSend 0 ⟨typeAck, [0, 1, 1, 4, 0, 0]⟩, .conn 0 (.deliverReceive 0),
          .conn 0 .serveRead, .conn 0 (.deliverRegister 0), .conn 0 (.deliverSend 0),
          .conn 0 .serveDispatch, .conn 0 .acknowledgeSend, .conn 0 (.deliverAcknowledged 0),
          .conn 0 (.deliverLeave 0), .conn 0 (.deliverReceive 0), .conn 0 (.deliverRegister 0),
          .conn 0 (.deliverSend 0)])
      (Q := fun r => connLog 0 r.2 =
        [.read ⟨typeConnect, [0, 0]⟩, .read ⟨typeSubscribe, [0, 1, 116]⟩, .subscribing [116] 0,
          .read ⟨typeAck, [0, 1, 1, 4, 0, 0]⟩,
          .registered 0 0 ⟨1, ⟨[1], [], [116], [], []⟩⟩,
          .wrote (.delivery 0 0) ⟨typeEvent, [0, 1, 1, 0, 0, 0, 1, 116, 0, 0, 0, 0, 0, 0]⟩,
          .looked ⟨[1], ackDelivered, []⟩ (some 0),
          .delivered 0 ⟨1, ⟨[1], [], [116], [], []⟩⟩ true,
          .registered 0 1 ⟨2, ⟨[2], [], [116], [], []⟩⟩,
          .wrote (.delivery 0 1) ⟨typeEvent, [0, 1, 2, 0, 0, 0, 1, 116, 0, 0, 0, 0, 0, 0]⟩])
      (by decide)
  refine ⟨log, s, hr, hlog, fun frame => ?_⟩
  rw [hlog]
  simp [List.precedes_cons]

end EventBus
