import EventBus.Spec.ClientChannels
import EventBus.Spec.ClientDelivery
import EventBus.Spec.ClientPublish
import EventBus.Spec.SessionDelivery

/-!
# What the client's filter suppresses

The broker tells events apart by topic and idempotency key, the client by their ID alone. The
IDs that `readLoop` answers by itself are IDs of events it has put on `c.events`, if the
application acknowledges only what it has received. The event in hand is one of those if the
broker's events with one ID are all the same; of two events with one ID and different topics
the second is acknowledged and never exposed.

## Key results

- `filter_inv`: every ID that the client acknowledges is that of an event it has exposed
- `suppressed_was_exposed`: so is every event, if an ID belongs to one event
- `unexposed_event_acknowledged`: two topics with one event ID
-/

namespace EventBus

/-! ## What the client acknowledges -/

/-- An event with this ID has been put on `c.events`. -/
def Exposed (log : List ClientObs) (id : Bytes) : Prop :=
  ∃ event : Event, event.id = id ∧ .put event ∈ log

theorem Exposed.append {log : List ClientObs} {id : Bytes} (h : Exposed log id)
    (os : List ClientObs) : Exposed (log ++ os) id := by
  obtain ⟨event, hid, ho⟩ := h
  exact ⟨event, hid, List.mem_append_left _ ho⟩

/-- The IDs in this frame, if it is an ACK, satisfy `P`. -/
def Frame.AcksOnly (P : Bytes → Prop) (frame : Frame) : Prop :=
  frame.type = typeAck → ∀ ack, decodeAck frame.payload = .ok ack → P ack.id

/-- The IDs that a call is about to acknowledge or to remember satisfy `P`. -/
def ClientPc.AcksOnly (P : Bytes → Prop) : ClientPc → Prop
  | .check frame after | .write frame after =>
    frame.AcksOnly P ∧ ∀ id, after = .acknowledge id → P id
  | .remember id => P id
  | _ => True

section AcksOnly

variable {P Q : Bytes → Prop}

theorem ClientPc.AcksOnly.mono {pc : ClientPc} (h : pc.AcksOnly P) (hPQ : ∀ id, P id → Q id) :
    pc.AcksOnly Q := by
  cases pc with
  | check | write =>
    exact ⟨fun htype ack hdec => hPQ _ (h.1 htype ack hdec), fun id hid => hPQ _ (h.2 id hid)⟩
  | remember => exact hPQ _ h
  | _ => trivial

theorem AfterClientSend.acksOnly_failed (after : AfterClientSend) (err : ClientErr) :
    (after.failed err).AcksOnly P := by
  cases after <;> trivial

theorem acksOnly_startSend {type : FrameType} (payload : Except MsgErr Bytes)
    (htype : type ≠ typeAck) : (startSend type payload .subscribe).AcksOnly P := by
  unfold startSend
  split
  · trivial
  · exact ⟨fun h => absurd h htype, nofun⟩

theorem acksOnly_startAcknowledge {id : Bytes} (h : P id) : (startAcknowledge id).AcksOnly P := by
  unfold startAcknowledge startSend
  split
  · trivial
  · split
    · trivial
    · rename_i henc
      refine ⟨fun _ ack hdec => ?_, fun id' hid => ?_⟩
      · rw [(decodeAck_ok_iff _ _).mpr henc] at hdec
        obtain rfl := Except.ok.inj hdec
        exact h
      · obtain rfl := AfterClientSend.acknowledge.inj hid
        exact h

theorem ClientOp.acksOnly_start {op : ClientOp} (h : ∀ id, op = .acknowledge id → P id) :
    op.start.AcksOnly P := by
  cases op with
  | subscribe => exact acksOnly_startSend _ (by decide)
  | unsubscribe => exact acksOnly_startSend _ (by decide)
  | acknowledge id => exact acksOnly_startAcknowledge (h id rfl)
  | publishWithResult ctx event random =>
    show (startPublish ctx event random).AcksOnly P
    unfold startPublish
    split
    · trivial
    · split <;> trivial
  | ping => exact ⟨fun h => absurd h (by decide), nofun⟩

/-- A call acknowledges and remembers what it was about to. -/
theorem CallMove.acksOnly {c : Client} {call : ClientCall} {a : CallAction} {pc : ClientPc}
    {out : CallOut} (h : CallMove c call a pc out) (hpc : pc.AcksOnly P) :
    out.pc.AcksOnly P ∧ (∀ frame, .sent frame ∈ out.obs → frame.AcksOnly P) ∧
      ∀ id, id ∈ out.client.acked → id ∈ c.acked ∨ P id := by
  have hsame : ∀ id, id ∈ c.acked → id ∈ c.acked ∨ P id := fun _ => .inl
  cases h with
  | @register ctx event =>
    refine ⟨?_, by simp [Client.registerCall], hsame⟩
    unfold Client.registerCall
    dsimp only
    split
    · trivial
    · exact ⟨fun h => absurd h (by decide : typePublish ≠ typeAck), by simp⟩
  | @closed _ after => exact ⟨after.acksOnly_failed _, by simp, hsame⟩
  | check => exact ⟨hpc, by simp, hsame⟩
  | @write frame after =>
    refine ⟨?_, fun frame' ho => ?_, hsame⟩
    · cases after with
      | acknowledge id => exact hpc.2 id rfl
      | _ => trivial
    · obtain rfl := ClientObs.sent.inj (List.mem_singleton.mp ho)
      exact hpc.1
  | @writeFails _ after => exact ⟨after.acksOnly_failed _, by simp, hsame⟩
  | @remember id =>
    refine ⟨trivial, by simp, fun id' hid => ?_⟩
    rcases mem_rememberDelivery hid with rfl | hold
    · exact .inr hpc
    · exact .inl hold
  | _ => exact ⟨trivial, by simp, hsame⟩

end AcksOnly

/-- What has been received, remembered or acknowledged has been exposed. -/
structure Client.FilterInv (log : List ClientObs) (c : Client) : Prop where
  waiting : ∀ event ∈ c.events.buf, .put event ∈ log
  received : ∀ event, .received event ∈ log → .put event ∈ log
  acked : ∀ id, id ∈ c.acked → Exposed log id
  calls : ∀ call pc, c.calls call = some pc → pc.AcksOnly (Exposed log)
  reader : ∀ pc, c.reader = .acknowledge pc → pc.AcksOnly (Exposed log)
  sent : ∀ frame, .sent frame ∈ log → frame.AcksOnly (Exposed log)

section Filter

variable {c c' : Client} {a : ClientAction} {log os : List ClientObs}

/-- The IDs that a step acknowledges or remembers, if the application and `readLoop` were about
    to do so for no others. -/
theorem ClientEffect.acksOnly {P : Bytes → Prop} (h : ClientEffect c a c' os)
    (hack : ∀ call id, a = .invoke call (.acknowledge id) → P id)
    (hacked : ∀ id, id ∈ c.acked → P id)
    (hcalls : ∀ call pc, c.calls call = some pc → pc.AcksOnly P)
    (hreader : ∀ pc, c.reader = .acknowledge pc → pc.AcksOnly P) :
    (∀ id, id ∈ c'.acked → P id) ∧ (∀ call pc, c'.calls call = some pc → pc.AcksOnly P) ∧
      (∀ pc, c'.reader = .acknowledge pc → pc.AcksOnly P) ∧
      ∀ frame, .sent frame ∈ os → frame.AcksOnly P := by
  cases h with
  | dial =>
    refine ⟨hacked, hcalls, nofun, fun frame ho => ?_⟩
    obtain rfl := ClientObs.sent.inj (List.mem_singleton.mp ho)
    exact fun htype => absurd htype (by decide : typeConnect ≠ typeAck)
  | @invoke call op =>
    refine ⟨hacked, fun call' pc hpc => ?_, hreader, by simp⟩
    by_cases hcall : call' = call
    · rw [hcall, Client.setCall_self, Option.some.injEq] at hpc
      exact hpc ▸ ClientOp.acksOnly_start fun id hop => hack call id (hop ▸ rfl)
    · rw [Client.setCall_of_ne hcall] at hpc
      exact hcalls call' pc hpc
  | @call call b pc out hpc hm =>
    obtain ⟨hpc', hframes, hmem⟩ := hm.acksOnly (hcalls call pc hpc)
    obtain ⟨_, _, _, _, heq⟩ := hm.client_eq
    refine ⟨fun id hid => (hmem id hid).elim (hacked id) fun hid => hid,
      fun call' pc' hpc'' => ?_, ?_, fun frame ho => ?_⟩
    · by_cases hcall : call' = call
      · rw [hcall, Client.setCall_self, Option.some.injEq] at hpc''
        exact hpc'' ▸ hpc'
      · rw [Client.setCall_of_ne hcall, heq] at hpc''
        exact hcalls call' pc' hpc''
    · show ∀ pc, out.client.reader = .acknowledge pc → _
      rw [heq]
      exact hreader
    · rcases List.mem_append.mp ho with ho | ho
      · exact hframes frame ho
      · simp at ho
  | @readAcknowledge b pc out hpc hm =>
    obtain ⟨hpc', hframes, hmem⟩ := hm.acksOnly (hreader pc hpc)
    obtain ⟨_, _, _, _, heq⟩ := hm.client_eq
    refine ⟨fun id hid => (hmem id hid).elim (hacked id) fun hid => hid, ?_,
      fun pc' hpc'' => ?_, hframes⟩
    · rw [heq]
      exact hcalls
    · unfold Client.readAcknowledgePc at hpc''
      split at hpc''
      · exact nomatch hpc''
      · exact ReadPc.acknowledge.inj hpc'' ▸ hpc'
  | @dispatch frame hpc =>
    refine ⟨hacked, hcalls, fun pc hnext => ?_, by simp⟩
    -- the ID that is acknowledged is remembered
    obtain ⟨event, -, -, hdel, rfl⟩ := (Client.handled _ _).acknowledge_inv hnext
    exact acksOnly_startAcknowledge (hacked _ ((wasDelivered_iff c _).mp hdel))
  | peerSend | close | closeConn | receive | receiveShutdown | readClose =>
    exact ⟨hacked, hcalls, hreader, by simp⟩
  | _ => exact ⟨hacked, hcalls, nofun, by simp⟩

/-- One step, in which the application acknowledges only what it has received. -/
theorem Client.FilterInv.step (h : c.FilterInv log) (heff : ClientEffect c a c' os)
    (hack : ∀ call id, a = .invoke call (.acknowledge id) →
      ∃ event : Event, event.id = id ∧ .received event ∈ log) : c'.FilterInv (log ++ os) := by
  have hexp : ∀ id, Exposed log id → Exposed (log ++ os) id := fun id hid => hid.append os
  have hput : ∀ event ∈ c.events.buf ++ exposedEvents os, .put event ∈ log ++ os := by
    intro event he
    rcases List.mem_append.mp he with hold | hnew
    · exact List.mem_append_left _ (h.waiting event hold)
    · exact List.mem_append_right _ (mem_exposedEvents.mp hnew)
  -- what is received and what is left in the buffer has been put there
  rw [heff.events_fifo] at hput
  have hcalled : ∀ call id, a = .invoke call (.acknowledge id) → Exposed (log ++ os) id := by
    intro call id ha
    obtain ⟨event, hid, ho⟩ := hack call id ha
    exact hexp id ⟨event, hid, h.received event ho⟩
  obtain ⟨hacked, hcalls, hreader, hsent⟩ := heff.acksOnly hcalled
    (fun id hid => hexp id (h.acked id hid)) (fun call pc hpc => (h.calls call pc hpc).mono hexp)
    fun pc hpc => (h.reader pc hpc).mono hexp
  refine ⟨fun event he => hput event (List.mem_append_right _ he), fun event ho => ?_, hacked,
    hcalls, hreader, fun frame ho => ?_⟩
  · rcases List.mem_append.mp ho with hold | hnew
    · exact List.mem_append_left _ (h.received event hold)
    · exact hput event (List.mem_append_left _ (mem_receivedEvents.mpr hnew))
  · rcases List.mem_append.mp ho with hold | hnew
    · exact fun htype ack hdec => hexp _ (h.sent frame hold htype ack hdec)
    · exact hsent frame hnew

end Filter

/-! ## In a session -/

/-- The events that have been put in queues of the broker. -/
def queuedEvents (log : List Obs) : List Event :=
  log.filterMap fun
    | .put _ x _ => some x.event
    | _ => none

theorem mem_queuedEvents {log : List Obs} {p : SubPtr} {x : Copy} {route : Route}
    (ho : .put p x route ∈ log) : x.event ∈ queuedEvents log :=
  List.mem_filterMap.mpr ⟨_, ho, rfl⟩

/-- The ID in a call of `Acknowledge` by the application. -/
def SessionAction.acknowledges : SessionAction → Option Bytes
  | .client (.invoke _ (.acknowledge id)) => some id
  | _ => none

/-- The application calls `Acknowledge` only for events it has received. -/
def AcksReceived (s : Session × List SessionObs) (a : SessionAction) : Prop :=
  ∀ id ∈ a.acknowledges, ∃ event ∈ receivedEvents (clientLog s.2), event.id = id

instance (s : Session × List SessionObs) (a : SessionAction) : Decidable (AcksReceived s a) :=
  inferInstanceAs (Decidable (∀ id ∈ a.acknowledges, _))

section Session

variable {config : Config} {k : ConnId} {log : List SessionObs}

/-- Every ID that the client has acknowledged or remembers is that of an event it has
    exposed. -/
theorem filter_inv {s : Session × List SessionObs}
    (h : (Session.lts config k).history.Reach AcksReceived log s) :
    s.1.client.FilterInv (clientLog log) := by
  refine h.induct_history (P := fun log s => s.client.FilterInv (clientLog log)) ?_ ?_
  · rintro _ rfl
    exact ⟨nofun, nofun, nofun, nofun, nofun, nofun⟩
  intro log s a s' os _ ih hg hstep
  have hack : ∀ b, a = .client b → ∀ call id, b = .invoke call (.acknowledge id) →
      ∃ event : Event, event.id = id ∧ .received event ∈ clientLog log := by
    rintro b rfl call id rfl
    obtain ⟨event, he, hid⟩ := hg id rfl
    exact ⟨event, hid, mem_receivedEvents.mp he⟩
  cases session_step_effect hstep with
  | server =>
    rw [clientLog_append, clientLog_map_server, List.append_nil]
    exact ⟨ih.waiting, ih.received, ih.acked, ih.calls, ih.reader, ih.sent⟩
  | client _ hclient | send _ hclient =>
    rw [clientLog_append, clientLog_map_client]
    exact ih.step (client_step_effect hclient) (hack _ rfl)

variable {G : Session → SessionAction → Prop} {s : Session}

/-- An event that the client has read was put in a queue of the broker. -/
theorem read_queued (h : (Session.lts config k).Reach G log s) {frame : Frame} {event : Event}
    (hread : .read frame ∈ clientLog log) (htype : frame.type = typeEvent)
    (hdec : decodeEvent frame.payload = .ok event) :
    event ∈ queuedEvents (busLog (serverLog log)) := by
  have hserver := Session.reach_server h
  have hwrote : frame ∈ (connLog k (serverLog log)).filterMap ConnObs.wrote? := by
    rw [(wire_inv h).toClient]
    exact List.mem_append_left _ (List.mem_filterMap.mpr ⟨_, hread, rfl⟩)
  obtain ⟨o, ho, heq⟩ := List.mem_filterMap.mp hwrote
  cases hc : s.server.connections k with
  | none =>
    rw [connLog_eq_nil hserver hc] at ho
    cases ho
  | some c =>
    cases o with
    | wrote writer frame' =>
      cases heq
      obtain ⟨sub, ch, rfl⟩ := event_writer hserver hc ho htype
      obtain ⟨-, -, x, hx, -, henc⟩ := delivery_frame hserver hc ho
      rw [(decodeEvent_ok_iff _ _).mpr henc, Except.ok.injEq] at hdec
      obtain ⟨route, hput⟩ := received_put (Server.reach_bus hserver) hx
      exact hdec ▸ mem_queuedEvents hput
    | _ => cases heq

/-- An event that the client has exposed was put in a queue of the broker. -/
theorem exposed_queued (h : (Session.lts config k).Reach G log s) {event : Event}
    (ho : .put event ∈ clientLog log) : event ∈ queuedEvents (busLog (serverLog log)) := by
  have hexp : event ∈ exposures event.topic (clientLog log) :=
    List.mem_filterMap.mpr ⟨_, ho, by simp⟩
  have hmem := (exposed_frames (Session.reach_client h) event.topic).subset hexp
  obtain ⟨frame, hframe, hevent⟩ := List.mem_filterMap.mp hmem
  obtain ⟨o, hread, heq⟩ := List.mem_filterMap.mp hframe
  have hread : .read frame ∈ clientLog log := by
    cases o with
    | read => exact Option.some.inj heq ▸ hread
    | _ => cases heq
  unfold eventOf at hevent
  split at hevent
  · split at hevent
    · split at hevent
      · cases hevent
        exact read_queued h hread ‹_› ‹_›
      · cases hevent
    · cases hevent
  · cases hevent

/-- The events that the broker queues under one ID are all the same. -/
def OneEventPerID (log : List Obs) : Prop :=
  ∀ event ∈ queuedEvents log, ∀ event' ∈ queuedEvents log, event.id = event'.id → event = event'

instance (log : List Obs) : Decidable (OneEventPerID log) :=
  inferInstanceAs (Decidable (∀ event ∈ queuedEvents log, _))

/-- The client's filter suppresses only real duplicates, if the events queued under one ID
    are all the same and the application acknowledges only what it has received: an event that
    `readLoop` answers by itself has been exposed before, and so has every queued event whose
    ID the client has acknowledged. -/
theorem suppressed_was_exposed {s : Session × List SessionObs}
    (h : (Session.lts config k).history.Reach AcksReceived log s)
    (hone : OneEventPerID (busLog (serverLog log))) :
    (∀ frame event s' os pc, s.1.client.reader = .handle frame → frame.type = typeEvent →
      decodeEvent frame.payload = .ok event →
      s.1.step k (.client .dispatch) = some (s', os) → s'.client.reader = .acknowledge pc →
      .put event ∈ clientLog log) ∧
    ∀ event ∈ queuedEvents (busLog (serverLog log)), ∀ frame ack,
      .sent frame ∈ clientLog log → frame.type = typeAck → decodeAck frame.payload = .ok ack →
      ack.id = event.id → .put event ∈ clientLog log := by
  have hinv := filter_inv h
  have hr : (Session.lts config k).Reach Lts.Always log s.1 := h.of_history fun _ _ _ => trivial
  -- an exposed event is the only one with its ID
  have hexposed : ∀ event ∈ queuedEvents (busLog (serverLog log)),
      Exposed (clientLog log) event.id → .put event ∈ clientLog log := by
    rintro event hq ⟨event', hid, ho⟩
    rw [hone event hq event' (exposed_queued hr ho) hid.symm]
    exact ho
  constructor
  · intro frame event s' os pc hpc htype hdec hstep hnext
    have hread := (reply_inv (Session.reach_client hr)).handled frame hpc
    apply hexposed event (read_queued hr hread htype hdec)
    cases session_step_effect hstep with
    | client _ hclient | send _ hclient =>
      cases client_step_effect hclient with
      | dispatch hpc' =>
        rw [hpc] at hpc'
        cases hpc'
        obtain ⟨event', -, hdec', hdel, -⟩ := (Client.handled _ _).acknowledge_inv hnext
        rw [hdec] at hdec'
        obtain rfl := Except.ok.inj hdec'
        exact hinv.acked _ ((wasDelivered_iff _ _).mp hdel)
  · intro event hq frame ack hsent htype hdec hid
    apply hexposed event hq
    rw [← hid]
    exact hinv.sent frame hsent htype ack hdec

end Session

/-! ## Runs -/

/-- The delivery goroutine of `sub` writes its next event. -/
private def deliverRun (sub : SubPtr) : List SessionAction :=
  serverRun [.conn 0 (.deliverReceive sub), .conn 0 (.deliverRegister sub),
    .conn 0 (.deliverSend sub)]

/-- The client exposes an event with ID 1, which the application acknowledges. -/
private def acknowledgeFirst (call : ClientCall) : List SessionAction :=
  clientRun [.read, .dispatch, .put, .receive] ++ sendRun 0 call (.acknowledge [1]) ++
    clientRun [.call call .remember]

/-- An event is written a second time after the client has acknowledged it. -/
theorem suppressed_was_exposed_retry :
    ∃ log s s' os pc, (Session.lts ⟨2, 0, 0, .block⟩ 0).history.Reach AcksReceived log s ∧
      OneEventPerID (busLog (serverLog log)) ∧
      s.1.client.reader =
        .handle ⟨typeEvent, [0, 1, 1, 0, 0, 0, 1, 116, 0, 0, 0, 0, 0, 0]⟩ ∧
      s.1.step 0 (.client .dispatch) = some (s', os) ∧ s'.client.reader = .acknowledge pc ∧
      .put ⟨[1], [], [116], [], []⟩ ∈ clientLog log := by
  obtain ⟨log, s, hr, hone, hpc, ⟨s', os⟩, hstep, hack⟩ :=
    Lts.reach_of_runWhere (M := (Session.lts ⟨2, 0, 0, .block⟩ 0).history) (G := AcksReceived)
      (Lts.history_init rfl)
      (clientSubscribeRun ++ serverRun (publishRun 1 [1] 0) ++ deliverRun 0 ++
        serverRun [.conn 0 (.deliverTimeout 0), .conn 0 (.deliverSend 0)] ++
        acknowledgeFirst 1 ++ clientRun [.read])
      (Q := fun r => OneEventPerID (busLog (serverLog r.2)) ∧ r.1.1.client.reader =
          .handle ⟨typeEvent, [0, 1, 1, 0, 0, 0, 1, 116, 0, 0, 0, 0, 0, 0]⟩ ∧
        ∃ q ∈ r.1.1.step 0 (.client .dispatch),
          q.1.client.reader = .acknowledge (startAcknowledge [1])) (by decide)
  refine ⟨log, s, s', os, _, hr, hone, hpc, hstep, hack, ?_⟩
  exact (suppressed_was_exposed hr hone).1 _ _ s' os _ hpc rfl (by decide) hstep hack

/-- Two events with the same ID are accepted on the topics `t` and `u`, to both of which the
    client subscribes. The application receives and acknowledges the first. The second is
    acknowledged by `readLoop` and never exposed. -/
theorem unexposed_event_acknowledged :
    ∃ log s s' os pc log' s'',
      (Session.lts ⟨2, 0, 8, .block⟩ 0).history.Reach AcksReceived log s ∧
      .returned 2 .published ∈ busLog (serverLog log) ∧
      .returned 3 .published ∈ busLog (serverLog log) ∧
      s.1.client.reader =
        .handle ⟨typeEvent, [0, 1, 1, 0, 0, 0, 1, 117, 0, 0, 0, 0, 0, 0]⟩ ∧
      s.1.step 0 (.client .dispatch) = some (s', os) ∧ s'.client.reader = .acknowledge pc ∧
      (Session.lts ⟨2, 0, 8, .block⟩ 0).history.Steps AcksReceived s log' s'' ∧
      clientLog log' = [.sent ⟨typeAck, [0, 1, 1, 4, 0, 0]⟩] ∧
      exposures [117] (clientLog (log ++ log')) = [] := by
  obtain ⟨⟨s, log⟩, hrun, hret, hret', hpc, ⟨s', os⟩, hstep, hack, ⟨s'', log'⟩, hrun', hsent,
      hexp⟩ :
      ∃ r ∈ (Session.lts ⟨2, 0, 8, .block⟩ 0).history.runWhere AcksReceived
          (⟨newServer ⟨2, 0, 8, .block⟩, newClient⟩, [])
          (clientSubscribeRun ++ sendRun 0 1 (.subscribe [117]) ++
            serverRun ([ServerAction.conn 0 .subscribeLock, .conn 0 .isDraining,
              .conn 0 .isDrainingConn, .conn 0 (.subscribeCall 1), .bus (.subscribe 1),
              .conn 0 .subscribeReturn, .conn 0 .subscribeStore, .conn 0 .subscribeSpawn,
              .conn 0 .subscribeUnlock] ++ publishRun 2 [1] 0 ++
              [ServerAction.bus
                  (.invoke 3 (.publishWithResult .background ⟨[1], [], [117], [], []⟩)),
                .bus (.publishEnter 3 [1] []), .bus (.enqueueEnter 3), .bus (.enqueueCheck 3),
                .bus (.enqueueSend 3), .bus (.enqueueReturn 3), .bus (.publishLeave 3 [])]) ++
            deliverRun 0 ++ acknowledgeFirst 2 ++ deliverRun 1 ++ clientRun [.read]),
        .returned 2 .published ∈ busLog (serverLog r.2) ∧
        .returned 3 .published ∈ busLog (serverLog r.2) ∧
        r.1.1.client.reader =
          .handle ⟨typeEvent, [0, 1, 1, 0, 0, 0, 1, 117, 0, 0, 0, 0, 0, 0]⟩ ∧
        ∃ q ∈ r.1.1.step 0 (.client .dispatch),
          q.1.client.reader = .acknowledge (startAcknowledge [1]) ∧
          ∃ t ∈ (Session.lts ⟨2, 0, 8, .block⟩ 0).history.runWhere AcksReceived r.1
              (clientRun [.dispatch, .readAcknowledge .check, .readAcknowledge .write,
                .readAcknowledge .remember]),
            clientLog t.2 = [.sent ⟨typeAck, [0, 1, 1, 4, 0, 0]⟩] ∧
            exposures [117] (clientLog (r.2 ++ t.2)) = [] := by decide
  exact ⟨log, s, s', os, _, log', s'',
    ⟨_, Lts.history_init rfl, Lts.steps_of_runWhere _ _ _ _ hrun⟩,
    hret, hret', hpc, hstep, hack, Lts.steps_of_runWhere _ _ _ _ hrun', hsent, hexp⟩

end EventBus
