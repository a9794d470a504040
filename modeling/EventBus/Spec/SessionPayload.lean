import EventBus.Spec.BrokerLog
import EventBus.Spec.SessionDelivery
import EventBus.Spec.SessionPublish

/-!
# From the publisher to the subscribers

The payload of a PUBLISH frame and that of an EVENT frame have one format. A message that
`serve` has decoded is therefore encoded again to the bytes it came in, which fit in a
frame because they came in one, and the subscriber decodes the event that was published.

## Key results

- `carries_publish`: a PUBLISH frame that is read and decoded carries its event
- `received_carried`: so does every event that came over the wire and left a queue
- `payload_transparent`: what subscribers decode is what a client published
-/

namespace EventBus

variable {payload bytes : Bytes} {frame : Frame} {message : PublishMessage} {c : Client}
  {a : ConnAction} {call : CallId} {k : ConnId} {event : Event} {ctx : Ctx}
  {G : Client → ClientAction → Prop} {log : List ClientObs}

/-- The payload carries the event: `deliver` encodes and writes it, and a subscriber decodes
    it again. -/
structure Carries (payload : Bytes) (event : Event) : Prop where
  encoded : encodeEvent event = .ok payload
  written : ∃ bytes, writeFrame ⟨typeEvent, payload⟩ = .ok bytes
  decoded : decodeEvent payload = .ok event

/-- A payload that fits in one frame fits in a frame of any other type. -/
theorem writeFrame_type {type type' : FrameType} (htype : type' ≠ 0)
    (hw : writeFrame ⟨type, payload⟩ = .ok bytes) :
    ∃ bytes', writeFrame ⟨type', payload⟩ = .ok bytes' := by
  obtain ⟨-, hlen, -⟩ := (writeFrame_ok_iff _ _).mp hw
  exact ⟨_, (writeFrame_ok_iff _ _).mpr ⟨htype, hlen, rfl⟩⟩

theorem carries_of_decoded (hw : writeFrame frame = .ok bytes)
    (hdec : decodePublish frame.payload = .ok message) :
    Carries frame.payload message.event := by
  have henc : encodeEvent message.event = .ok frame.payload := (decodePublish_ok_iff _ _).mp hdec
  exact ⟨henc, writeFrame_type (by decide) hw, (decodeEvent_ok_iff _ _).mpr henc⟩

/-- A PUBLISH frame that is read and decoded carries its event. -/
theorem carries_publish {rest : Bytes} (hread : readFrame bytes = .ok (frame, rest))
    (hdec : decodePublish frame.payload = .ok message) :
    Carries frame.payload message.event := by
  obtain ⟨p, hw, -⟩ := (readFrame_ok_iff _ _ _).mp hread
  exact carries_of_decoded hw hdec

/-! ## Through the broker -/

section Server

variable {config : Config} {G : Server → ServerAction → Prop} {log : List ServerObs} {s : Server}

theorem ServeMove.publishing_mem {c : Connection} {pc pc' : ServePc} {bus : Option Action}
    {obs : List ConnObs} (h : ServeMove s c a pc pc' bus obs)
    (ho : .publishing message call ∈ obs) :
    bus = some (.invoke call (.publishWithResult .background message.event)) := by
  cases h with
  | publishCall =>
    obtain ⟨rfl, rfl⟩ := ConnObs.publishing.inj (List.mem_singleton.mp ho)
    rfl
  | _ => simp at ho

theorem ConnMove.publishing_mem {c : Connection} {out : Out} (h : ConnMove s c a out)
    (ho : .publishing message call ∈ out.obs) :
    out.bus = some (.invoke call (.publishWithResult .background message.event)) := by
  cases h with
  | serve _ hm => exact hm.publishing_mem ho
  | deliver _ hm => cases hm <;> simp at ho
  | graceful _ hm => cases hm <;> simp at ho
  | _ => simp at ho

/-- A message is published by the call of the broker that it is reported with. -/
theorem publishing_invoked (h : (Server.lts config).Reach G log s)
    (hp : .publishing message call ∈ connLog k log) :
    PublishedBy (busLog log) call message.event := by
  refine h.induct_reach (P := fun log _ => .publishing message call ∈ connLog k log →
    PublishedBy (busLog log) call message.event) (by simp) ?_ hp
  intro log s a s' os hr hinv _ hstep hp
  rw [connLog_append, List.mem_append] at hp
  rw [busLog_append]
  rcases hp with hold | hnew
  · exact (hinv hold).append _
  have heff := server_step_effect hstep
  rcases heff.conn_change k with ⟨-, hlog, -⟩ | ⟨c, c', hc, hc', hch⟩
  · rw [hlog] at hnew
    cases hnew
  generalize hobs : connLog k os = obs at hch hnew
  generalize hbos : busLog os = bos at hch ⊢
  cases hch with
  | move hm hbus =>
    rw [hm.publishing_mem hnew] at hbus
    obtain ⟨-, -, -, -, rfl⟩ := Bus.step_invoke hbus
    exact ⟨.background, List.mem_append_right _ (List.mem_singleton_self _)⟩
  | _ => cases hnew

/-- An event that came over the wire and was received from a queue is that of its message, and
    `deliver` encodes it to the payload of the PUBLISH frame. -/
theorem received_carried (h : (Server.lts config).Reach G log s) {x : Copy} {sub : SubPtr}
    (hp : (message, x.call) ∈ publishings (connLog k log))
    (hx : x ∈ receivedFrom (busLog log) sub) :
    x.event = message.event ∧ ∃ frame, .read frame ∈ connLog k log ∧ frame.type = typePublish ∧
      decodePublish frame.payload = .ok message ∧ Carries frame.payload x.event := by
  have hlog := log_inv (Server.reach_bus h)
  obtain ⟨route, hput⟩ := received_put (Server.reach_bus h) hx
  have hevent : x.event = message.event :=
    hlog.event_unique (hlog.put sub x route hput).1 (publishing_invoked h (mem_publishings.mp hp))
  obtain ⟨frame, hread, htype, hdec⟩ := published_decoded h hp
  obtain ⟨bytes, hw⟩ := read_writable h hread
  exact ⟨hevent, frame, hread, htype, hdec, hevent ▸ carries_of_decoded hw hdec⟩

end Server

/-! ## What a client publishes -/

/-- `event` is `e` with its ID generated if it was empty, and with the ID in place of an empty
    idempotency key. -/
structure Completes (e : Event) (random : Except Bytes (Vector UInt8 16)) (event : Event) :
    Prop where
  id : if e.id = [] then ∃ data, random = .ok data ∧ event.id = newMessageID data
    else event.id = e.id
  idempotencyKey : event.idempotencyKey =
    if e.idempotencyKey = [] then event.id else e.idempotencyKey
  rest : event.topic = e.topic ∧ event.key = e.key ∧ event.payload = e.payload

theorem completes_withIdempotencyKey {e event : Event} {random : Except Bytes (Vector UInt8 16)}
    (hid : if e.id = [] then ∃ data, random = .ok data ∧ event.id = newMessageID data
      else event.id = e.id)
    (hrest : event.idempotencyKey = e.idempotencyKey ∧ event.topic = e.topic ∧ event.key = e.key ∧
      event.payload = e.payload) : Completes e random event.withIdempotencyKey := by
  obtain ⟨hkey, htopic, hk, hpayload⟩ := hrest
  unfold Event.withIdempotencyKey
  split
  · rename_i hnil
    exact ⟨hid, by rw [if_pos (hkey ▸ hnil)], htopic, hk, hpayload⟩
  · rename_i hne
    exact ⟨hid, by rw [if_neg (hkey ▸ hne), hkey], htopic, hk, hpayload⟩

/-- A call that gets to its first critical section has completed its event. -/
theorem start_completes {op : ClientOp} (h : op.start = .register ctx event) :
    ∃ e random, op = .publishWithResult ctx e random ∧ Completes e random event := by
  have hsend : ∀ {type payload after}, startSend type payload after ≠ .register ctx event := by
    intro type payload after
    unfold startSend
    split <;> simp
  cases op with
  | subscribe | unsubscribe => exact absurd h hsend
  | acknowledge eventID =>
    replace h : startAcknowledge eventID = _ := h
    unfold startAcknowledge at h
    split at h
    · cases h
    · exact absurd h hsend
  | ping => cases h
  | publishWithResult ctx' e random =>
    replace h : startPublish ctx' e random = _ := h
    unfold startPublish at h
    split at h
    · rename_i data
      obtain ⟨rfl, rfl⟩ := ClientPc.register.inj h
      refine ⟨e, _, rfl, completes_withIdempotencyKey ?_ ?_⟩
      · unfold Event.withID
        split <;> simp_all
      · unfold Event.withID
        split <;> exact ⟨rfl, rfl, rfl, rfl⟩
    · split at h
      · cases h
      · rename_i hne
        obtain ⟨rfl, rfl⟩ := ClientPc.register.inj h
        exact ⟨e, _, rfl, completes_withIdempotencyKey (by rw [if_neg hne]) ⟨rfl, rfl, rfl, rfl⟩⟩

/-- No step takes a call back to its registration. -/
theorem CallMove.ne_register {call : ClientCall} {a : CallAction} {pc : ClientPc} {out : CallOut}
    (h : CallMove c call a pc out) :
    out.pc ≠ .register ctx event := by
  cases h with
  | register =>
    unfold Client.registerCall
    dsimp only
    split <;> simp
  | @closed _ after | @write _ after | @writeFails _ after => cases after <;> exact nofun
  | _ => exact nofun

/-- A call that is about to register its channel has completed the event it was called with. -/
theorem registering_completes (h : Client.lts.Reach G log c) {call : ClientCall}
    (hpc : c.calls call = some (.register ctx event)) :
    ∃ e random, .invoked call (.publishWithResult ctx e random) ∈ log ∧
      Completes e random event := by
  refine h.invariant (P := fun log c => c.calls call = some (.register ctx event) →
    ∃ e random, .invoked call (.publishWithResult ctx e random) ∈ log ∧ Completes e random event)
    ?_ ?_ hpc
  · rintro _ rfl hpc
    cases hpc
  intro log c a c' os hinv _ hstep hpc
  have hold : c.calls call = some (.register ctx event) → ∃ e random,
      .invoked call (.publishWithResult ctx e random) ∈ log ++ os ∧ Completes e random event := by
    intro hpc
    obtain ⟨e, random, ho, hcomp⟩ := hinv hpc
    exact ⟨e, random, List.mem_append_left _ ho, hcomp⟩
  cases client_step_effect hstep with
  | @invoke call' op =>
    by_cases hcall : call = call'
    · subst hcall
      rw [Client.setCall_self, Option.some.injEq] at hpc
      obtain ⟨e, random, rfl, hcomp⟩ := start_completes hpc
      exact ⟨e, random, List.mem_append_right _ (List.mem_cons_self ..), hcomp⟩
    · rw [Client.setCall_of_ne hcall] at hpc
      exact hold hpc
  | @call call' b pc out hpc' hm =>
    by_cases hcall : call = call'
    · subst hcall
      rw [Client.setCall_self, Option.some.injEq] at hpc
      exact absurd hpc hm.ne_register
    · obtain ⟨_, _, _, _, heq⟩ := hm.client_eq
      rw [Client.setCall_of_ne hcall, heq] at hpc
      exact hold hpc
  | readAcknowledge _ hm =>
    obtain ⟨_, _, _, _, heq⟩ := hm.client_eq
    rw [heq] at hpc
    exact hold hpc
  | _ => exact hold hpc

/-- The event that a call registers is the one it was called with, completed. -/
theorem registered_completes (h : Client.lts.Reach G log c) {call : ClientCall} {ch : ReplyChan}
    (hreg : .registered call ch event ∈ log) :
    ∃ ctx e random, .invoked call (.publishWithResult ctx e random) ∈ log ∧
      Completes e random event := by
  obtain ⟨c₀, hinit, hsteps⟩ := h
  obtain ⟨log₁, c₁, a, c₂, os, log₂, h₁, -, hstep, ho, -, rfl⟩ := hsteps.exists_step_of_mem hreg
  have hreach₁ : Client.lts.Reach G log₁ c₁ := ⟨c₀, hinit, h₁⟩
  have hreply := (client_step_effect hstep).replyStep (reply_inv hreach₁).acknowledging
  obtain ⟨-, -, ctx, hpc⟩ := hreply.made call ch event ho
  obtain ⟨e, random, hinv, hcomp⟩ := registering_completes hreach₁ hpc
  exact ⟨ctx, e, random, by simp [hinv], hcomp⟩

/-- The PUBLISH frame of a client is read and decoded as it was written. -/
theorem published_carried (henc : encodePublish event.message = .ok payload)
    (hw : writeFrame ⟨typePublish, payload⟩ = .ok bytes) (rest : Bytes) :
    readFrame (bytes ++ rest) = .ok (⟨typePublish, payload⟩, rest) ∧
      decodePublish payload = .ok event.message ∧ Carries payload event := by
  have hread : readFrame (bytes ++ rest) = .ok (⟨typePublish, payload⟩, rest) :=
    (readFrame_ok_iff _ _ _).mpr ⟨bytes, hw, rfl⟩
  have hdec : decodePublish payload = .ok event.message := (decodePublish_ok_iff _ _).mpr henc
  exact ⟨hread, hdec, carries_publish hread hdec⟩

/-- Payload transparency, end to end: a PUBLISH frame that is read and decoded carries its
    event, `deliver` can encode and write every event that came over the wire, and every EVENT
    frame written for a message of the client decodes to the event of the call of
    `PublishWithResult` that sent it, completed. -/
theorem payload_transparent (config : Config) (k : ConnId) :
    (∀ bytes frame rest message, readFrame bytes = .ok (frame, rest) → frame.type = typePublish →
      decodePublish frame.payload = .ok message → Carries frame.payload message.event) ∧
    ∀ log s, (Session.lts config k).Reach Lts.Always log s →
      (∀ k' message x sub, (message, x.call) ∈ publishings (connLog k' (serverLog log)) →
        x ∈ receivedFrom (busLog (serverLog log)) sub → x.event = message.event ∧
        ∃ frame, .read frame ∈ connLog k' (serverLog log) ∧ frame.type = typePublish ∧
          decodePublish frame.payload = .ok message ∧ Carries frame.payload x.event) ∧
      ∀ call ch event, .registered call ch event ∈ clientLog log →
        (∃ ctx e random, .invoked call (.publishWithResult ctx e random) ∈ clientLog log ∧
          Completes e random event) ∧
        (∀ payload bytes rest, encodePublish event.message = .ok payload →
          writeFrame ⟨typePublish, payload⟩ = .ok bytes →
          readFrame (bytes ++ rest) = .ok (⟨typePublish, payload⟩, rest) ∧
            decodePublish payload = .ok event.message ∧ Carries payload event) ∧
        ∀ k' c sub ack x frame, (event.message, x.call) ∈ publishings (connLog k (serverLog log)) →
          s.server.connections k' = some c → .registered sub ack x ∈ connLog k' (serverLog log) →
          .wrote (.delivery sub ack) frame ∈ connLog k' (serverLog log) →
          frame.type = typeEvent ∧ decodeEvent frame.payload = .ok event := by
  refine ⟨fun bytes frame rest message hread _ hdec => carries_publish hread hdec, ?_⟩
  intro log s h
  have hserver := Session.reach_server h
  refine ⟨fun k' message x sub hp hx => received_carried hserver hp hx, ?_⟩
  intro call ch event hreg
  refine ⟨registered_completes (Session.reach_client h) hreg,
    fun payload bytes rest henc hw => published_carried henc hw rest, ?_⟩
  intro k' c sub ack x frame hp hc hdelivery hwrote
  obtain ⟨-, htype, x', hx', hdelivery', henc⟩ := delivery_frame hserver hc hwrote
  -- the channel belongs to one call of `deliver`
  obtain ⟨-, rfl⟩ := (ack_inv hserver hc).unique sub sub ack x x' hdelivery hdelivery'
  have hevent : x.event = event := (received_carried hserver hp hx').1
  exact ⟨htype, (decodeEvent_ok_iff _ _).mpr (hevent ▸ henc)⟩

/-! ## Runs -/

/-- An event that was published without an ID and without a key; `rand.Read` yielded zeros. -/
def generatedEvent : Event :=
  ⟨newMessageID (.replicate 16 0), newMessageID (.replicate 16 0), [116], [], [1, 2]⟩

set_option maxRecDepth 2048 in
/-- A client that subscribes and publishes an event without an ID and without a key: the EVENT
    frame it is sent has the generated ID in both places. -/
theorem payload_transparent_generated :
    ∃ log s frame, (Session.lts ⟨2, 0, 0, .block⟩ 0).Reach Lts.Always log s ∧
      .wrote (.delivery 0 0) frame ∈ connLog 0 (serverLog log) ∧
      decodeEvent frame.payload = .ok generatedEvent := by
  obtain ⟨log, s, hr, c, hc, hreg, hp, hdelivery, payload, -, hwrote⟩ :=
    Lts.reach_of_runWhere (M := Session.lts ⟨2, 0, 0, .block⟩ 0) (G := Lts.Always) rfl
      (clientSubscribeRun ++
        clientRun [.invoke 1 (.publishWithResult .background ⟨[], [], [116], [], [1, 2]⟩
            (.ok (.replicate 16 0))),
          .call 1 .register, .call 1 .check, .call 1 .write] ++
        serverRun [.conn 0 .serveRead, .conn 0 .serveDispatch, .conn 0 .isDraining,
          .conn 0 .isDrainingConn, .conn 0 (.publishCall 1), .bus (.publishEnter 1 [0] []),
          .bus (.enqueueEnter 1), .bus (.enqueueCheck 1), .bus (.enqueueSend 1),
          .bus (.enqueueReturn 1), .bus (.publishLeave 1 []), .conn 0 .publishReturn,
          .conn 0 (.deliverReceive 0), .conn 0 (.deliverRegister 0), .conn 0 (.deliverSend 0)])
      (Q := fun r => ∃ c ∈ r.1.server.connections 0,
        .registered 1 0 generatedEvent ∈ clientLog r.2 ∧
        (generatedEvent.message, 1) ∈ publishings (connLog 0 (serverLog r.2)) ∧
        .registered 0 0 ⟨1, generatedEvent⟩ ∈ connLog 0 (serverLog r.2) ∧
        ∃ payload ∈ (encodeEvent generatedEvent).toOption,
          .wrote (.delivery 0 0) ⟨typeEvent, payload⟩ ∈ connLog 0 (serverLog r.2))
      (by decide)
  have hresult := (payload_transparent ⟨2, 0, 0, .block⟩ 0).2 log s hr
  exact ⟨log, s, _, hr, hwrote, ((hresult.2 1 0 generatedEvent hreg).2.2 0 c 0 0 ⟨1, generatedEvent⟩
    ⟨typeEvent, payload⟩ hp hc hdelivery hwrote).2⟩

end EventBus
