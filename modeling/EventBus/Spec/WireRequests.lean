import EventBus.Spec.MessagesCorrect
import EventBus.Spec.ServerTeardown
import EventBus.Spec.WireStep

/-!
# The requests of a session

While its server does not drain, a connection makes the requests that the frames of its stream ask
for. What a frame asks for depends on this frame only, so that a stream that is cut at any
byte leads to the first of the requests that the whole stream leads to.

## Key results

- `Frame.request?_eq_some`: a request is asked for by a frame with a well-formed payload
- `requestsOf_mono`: more frames ask for more requests
- `WireEffect.made`, `ConnMove.requested`, `ConnMove.removed`: a request is made by a step that
  invokes the broker for it or deletes the topic, and these steps make their request
- `session_inv`: the requests made and the one in hand are those of the frames read
- `requestsMade_eq`: once `serve` has handled the stream, it has made the requests of its frames
-/

namespace EventBus

variable {w w' : Wire} {a : ConnAction} {k : ConnId} {os : List WireObs} {pc pc' : ServePc}
  {bus : Option Action} {obs : List ConnObs} {s s' : Server} {c : Connection} {out : Out}

/-! ## What frames ask for -/

/-- A CONNECT with a well-formed payload, as `serve` expects it first. -/
def Frame.connects (frame : Frame) : Bool :=
  frame.type = typeConnect && (decodeConnect frame.payload).isOk

/-- The request that a later frame asks for. -/
def Frame.request? (frame : Frame) : Option SessionRequest :=
  if frame.type = typeSubscribe then
    match decodeTopic frame.payload with
    | .error _ => none
    | .ok message => if message.topic = [] then none else some (.subscribe message.topic)
  else if frame.type = typePublish then
    match decodePublish frame.payload with
    | .error _ => none
    | .ok message => if message.topic = [] then none else some (.publish message.event)
  else if frame.type = typeUnsubscribe then
    match decodeTopic frame.payload with
    | .error _ => none
    | .ok message => some (.remove message.topic)
  else none

/-- The requests that the frames of a session ask for. -/
def requestsOf : List Frame → List SessionRequest
  | [] => []
  | frame :: frames => if frame.connects then frames.filterMap Frame.request? else []

/-- The frame has a well-formed payload and asks for the request. -/
inductive Frame.Asks : Frame → SessionRequest → Prop
  | subscribe {topic payload : Bytes} : topic ≠ [] → encodeTopic ⟨topic⟩ = .ok payload →
      Asks ⟨typeSubscribe, payload⟩ (.subscribe topic)
  | publish {event : Event} {payload : Bytes} : event.topic ≠ [] →
      encodeEvent event = .ok payload → Asks ⟨typePublish, payload⟩ (.publish event)
  | remove {topic payload : Bytes} : encodeTopic ⟨topic⟩ = .ok payload →
      Asks ⟨typeUnsubscribe, payload⟩ (.remove topic)

section Frames

variable {frame : Frame} {payload : Bytes}

theorem Frame.connects_iff : frame.connects = true ↔
    frame.type = typeConnect ∧ ∃ message, encodeConnect message = .ok frame.payload := by
  unfold Frame.connects
  simp only [← decodeConnect_ok_iff]
  cases decodeConnect frame.payload <;> simp [Except.isOk, Except.toBool]

theorem Frame.request?_subscribe : Frame.request? ⟨typeSubscribe, payload⟩ =
    match decodeTopic payload with
    | .error _ => none
    | .ok message => if message.topic = [] then none else some (.subscribe message.topic) := rfl

theorem Frame.request?_publish : Frame.request? ⟨typePublish, payload⟩ =
    match decodePublish payload with
    | .error _ => none
    | .ok message => if message.topic = [] then none else some (.publish message.event) := rfl

theorem Frame.request?_unsubscribe : Frame.request? ⟨typeUnsubscribe, payload⟩ =
    match decodeTopic payload with
    | .error _ => none
    | .ok message => some (.remove message.topic) := rfl

/-- A request is asked for by a frame with a well-formed payload. -/
theorem Frame.request?_eq_some {r : SessionRequest} :
    frame.request? = some r ↔ frame.Asks r := by
  constructor
  · intro h
    obtain ⟨type, payload⟩ := frame
    by_cases hsub : type = typeSubscribe
    · subst hsub
      rw [Frame.request?_subscribe] at h
      split at h
      · cases h
      · rename_i message hdec
        split at h
        · cases h
        · rename_i hne
          cases h
          exact .subscribe hne ((decodeTopic_ok_iff _ _).mp hdec)
    by_cases hpub : type = typePublish
    · subst hpub
      rw [Frame.request?_publish] at h
      split at h
      · cases h
      · rename_i message hdec
        split at h
        · cases h
        · rename_i hne
          cases h
          exact .publish hne ((decodePublish_ok_iff _ _).mp hdec)
    by_cases hunsub : type = typeUnsubscribe
    · subst hunsub
      rw [Frame.request?_unsubscribe] at h
      split at h
      · cases h
      · rename_i message hdec
        cases h
        exact .remove ((decodeTopic_ok_iff _ _).mp hdec)
    · rw [Frame.request?, if_neg hsub, if_neg hpub, if_neg hunsub] at h
      cases h
  · rintro (⟨hne, henc⟩ | ⟨hne, henc⟩ | henc)
    · rw [Frame.request?_subscribe, (decodeTopic_ok_iff _ _).mpr henc]
      exact if_neg hne
    · rw [Frame.request?_publish, (decodePublish_ok_iff _ _).mpr henc]
      exact if_neg hne
    · rw [Frame.request?_unsubscribe, (decodeTopic_ok_iff _ _).mpr henc]

end Frames

/-- More frames ask for more requests. -/
theorem requestsOf_mono {frames frames' : List Frame} (h : frames <+: frames') :
    requestsOf frames <+: requestsOf frames' := by
  obtain ⟨more, rfl⟩ := h
  cases frames with
  | nil => exact List.nil_prefix
  | cons frame frames =>
    rw [List.cons_append, requestsOf, requestsOf]
    split
    · exact (List.prefix_append frames more).filterMap _
    · exact List.nil_prefix

/-- Each request is asked for by a frame of its own. -/
theorem filterMap_asked (frames : List Frame) :
    ∃ asking, asking.Sublist frames ∧
      List.Forall₂ Frame.Asks asking (frames.filterMap Frame.request?) := by
  induction frames with
  | nil => exact ⟨[], .slnil, .nil⟩
  | cons frame frames ih =>
    obtain ⟨asking, hsub, hasks⟩ := ih
    cases hrequest : frame.request? with
    | none =>
      rw [List.filterMap_cons_none hrequest]
      exact ⟨asking, hsub.cons frame, hasks⟩
    | some r =>
      rw [List.filterMap_cons_some hrequest]
      have hask := Frame.request?_eq_some.mp hrequest
      exact ⟨frame :: asking, hsub.cons_cons frame, .cons hask hasks⟩

/-- Every request is asked for by a frame behind the first, in order. -/
theorem requestsOf_asked (frames : List Frame) :
    ∃ asking, asking.Sublist frames.tail ∧ List.Forall₂ Frame.Asks asking (requestsOf frames) := by
  cases frames with
  | nil => exact ⟨[], .slnil, .nil⟩
  | cons frame frames =>
    rw [requestsOf]
    split
    · exact filterMap_asked frames
    · exact ⟨[], List.nil_sublist _, .nil⟩

/-! ## What a request does -/

/-- What `serve` does in the step that makes the request: it invokes a method of the broker, or
    deletes the topic from `c.subs`. -/
def SessionRequest.Made (c c' : Connection) (invokes : Op → Prop) : SessionRequest → Prop
  | .subscribe topic => invokes (.subscribe topic)
  | .publish event => invokes (.publishWithResult .background event)
  | .remove topic => c'.subs = c.subs.erase topic

/-- The request that an invocation of the broker answers to. -/
def Op.request? : Op → Option SessionRequest
  | .subscribe topic => some (.subscribe topic)
  | .publishWithResult _ event => some (.publish event)
  | _ => none

section Made

variable {r : SessionRequest}

/-- A step that makes a request does what the request says. -/
theorem ConnMove.made (h : ConnMove s c a out) (hr : c.request? a = some r) :
    r.Made c out.conn fun op => ∃ call, out.bus = some (.invoke call op) := by
  unfold Connection.request? at hr
  cases h with
  | serve hpc hm =>
    rw [hpc] at hr
    cases hm with
    | subscribeCall | publishCall =>
      cases hr
      exact ⟨_, rfl⟩
    | unsubscribeUnknown htype hdec hnone =>
      simp only [if_pos htype, hdec, Option.some.injEq] at hr
      subst hr
      -- the topic is not there, and `delete` leaves the map as it is
      exact AList.ext (List.kerase_of_notMem_keys (AList.lookup_eq_none.mp hnone)).symm
    | unsubscribeInvalid htype hdec => simp [htype, hdec] at hr
    | subscribe htype | publish htype | ackInvalid htype | ackUnknown htype | ackKnown htype
    | ping htype =>
      simp only [htype] at hr
      cases hr
    | unsupported _ _ _ _ htype => simp [htype] at hr
    | _ => cases hr
  | unsubscribe hpc htype hdec =>
    rw [hpc] at hr
    simp only [if_pos htype, hdec, Option.some.injEq] at hr
    subst hr
    rfl
  | store hpc | replaced hpc | spawn hpc | acknowledge hpc | abort hpc =>
    rw [hpc] at hr
    cases hr
  | deliver _ hm | graceful _ hm | close _ hm => cases hm <;> exact nomatch hr
  | _ => cases hr

/-- A connection invokes `Subscribe` and `PublishWithResult` by a request only. -/
theorem ConnMove.requested {call : CallId} {op : Op} (h : ConnMove s c a out)
    (hbus : out.bus = some (.invoke call op)) (hop : op.request? = some r) :
    c.request? a = some r := by
  cases h with
  | serve hpc hm =>
    cases hm <;> cases hbus <;> cases hop <;> simp only [Connection.request?, hpc]
  | deliver _ hm | graceful _ hm | close _ hm => cases hm <;> cases hbus <;> cases hop
  | _ => cases hbus

/-- A connection that stays open loses a topic by a request only. -/
theorem ConnMove.removed {topic : Bytes} (h : ConnMove s c a out)
    (hsome : c.subs.lookup topic ≠ none) (hnone : out.conn.subs.lookup topic = none)
    (hopen : out.conn.closed = false) : c.request? a = some (.remove topic) := by
  cases h with
  | @store topic' | @replaced topic' =>
    by_cases htopic : topic = topic'
    · simp [htopic] at hnone
    · exact absurd ((AList.lookup_insert_ne htopic).symm.trans hnone) hsome
  | @unsubscribe frame message sub hpc htype hdec =>
    obtain rfl : topic = message.topic := by
      by_contra htopic
      exact hsome ((AList.lookup_erase_ne htopic).symm.trans hnone)
    simp only [Connection.request?, hpc, if_pos htype, hdec]
  | closeStart => cases hopen
  | _ => exact absurd hnone hsome

/-- A request is reported by the step of the connection that makes it. -/
theorem Wire.mem_requestObs {a : ServerAction} (h : .request k r ∈ w.requestObs a) :
    ∃ act c, a = .conn k act ∧ w.server.connections k = some c ∧ c.request? act = some r := by
  unfold Wire.requestObs at h
  split at h
  · split at h
    · rename_i c hc
      obtain ⟨r', hr, heq⟩ := List.mem_map.mp h
      obtain ⟨rfl, rfl⟩ := WireObs.request.inj heq
      exact ⟨_, c, rfl, hc, Option.mem_toList.mp hr⟩
    · cases h
  · cases h

/-- The step that reports a request invokes the broker for it, or deletes the topic. -/
theorem WireEffect.made {a : WireAction} (h : WireEffect w a w' os) (ho : .request k r ∈ os) :
    ∃ c c', w.server.connections k = some c ∧ w'.server.connections k = some c' ∧
      r.Made c c' fun op => ∃ call, .invoked call op ∈ busLog (Wire.serverLog os) := by
  cases h with
  | @server a s sos _ hstep =>
    rw [Wire.serverLog_append, Wire.serverLog_map_server, Wire.serverLog_requestObs,
      List.append_nil]
    obtain ⟨act, c, rfl, hc, hr⟩ := w.mem_requestObs (by simpa using ho)
    cases server_step_effect hstep with
    | conn hc₀ hm =>
      obtain rfl := Option.some.inj (hc.symm.trans hc₀)
      refine ⟨c, _, hc, Server.setConn_self .., ?_⟩
      have hmade := hm.made hr
      cases r with
      -- nothing is invoked
      | subscribe | publish => exact nomatch hmade.choose_spec
      | remove => exact hmade
    | connBus hc₀ hm hbus =>
      obtain rfl := Option.some.inj (hc.symm.trans hc₀)
      refine ⟨c, _, hc, Server.setConn_self .., ?_⟩
      have hmade := hm.made hr
      cases r with
      | subscribe | publish =>
        obtain ⟨call, hcall⟩ := hmade
        cases hcall
        obtain ⟨-, -, -, -, rfl⟩ := Bus.step_invoke hbus
        rw [busLog_append, busLog_map_bus]
        exact ⟨call, List.mem_append_left _ (List.mem_singleton_self _)⟩
      | remove => exact hmade
  | peerWrite | peerEnd | read | readFails | readClosed => simp at ho

end Made

/-! ## The request in hand -/

/-- The request that `serve` is about to make for the frame it has read. -/
def ServePc.pending : ServePc → List SessionRequest
  | .handle frame => frame.request?.toList
  | .subscribeLock topic | .isDraining (.subscribe topic) | .isDrainingConn (.subscribe topic) _
  | .subscribeCall topic => [.subscribe topic]
  | .isDraining (.publish payload) | .isDrainingConn (.publish payload) _ =>
    (Frame.request? ⟨typePublish, payload⟩).toList
  | .publishCall message => [.publish message.event]
  | _ => []

/-- The parts of a session. -/
inductive Phase where
  /-- `serve` expects a CONNECT. -/
  | handshake
  /-- `serve` is in its loop. -/
  | session
  /-- `serve` returns, or does after this write. -/
  | leaving
deriving DecidableEq, Repr

def ServePc.phase : ServePc → Phase
  | .handshake => .handshake
  | .send _ .quit | .abort | .closing | .finished => .leaving
  | _ => .session

/-- `isDraining` has found that the server drains. -/
def ServePc.sawDraining : ServePc → Bool
  | .isDrainingConn _ serverDraining => serverDraining
  | _ => false

theorem ServePc.Reports.sawDraining (h : pc.Reports) : pc.sawDraining = false := by
  cases h <;> rfl

theorem ServePc.Reports.pending (h : pc.Reports) : pc.pending = [] := by
  cases h <;> rfl

/-- A SUBSCRIBE frame in the hand of `serve` is the request it names. -/
theorem pending_subscribeNext (payload : Bytes) :
    (subscribeNext payload).pending = (Frame.request? ⟨typeSubscribe, payload⟩).toList := by
  rw [Frame.request?_subscribe, subscribeNext]
  cases decodeTopic payload with
  | error err => exact (reports_sendError _ _).pending
  | ok message =>
    dsimp only
    split_ifs
    · exact (reports_sendError _ _).pending
    · rfl

/-- A PUBLISH frame in the hand of `serve` is the request it names. -/
theorem pending_publishNext (payload : Bytes) :
    (publishNext payload).pending = (Frame.request? ⟨typePublish, payload⟩).toList := by
  rw [Frame.request?_publish, publishNext]
  cases decodePublish payload with
  | error err => exact (reports_sendError _ _).pending
  | ok message =>
    dsimp only
    split_ifs
    · exact (reports_sendError _ _).pending
    · rfl

theorem pending_publishReply (ack : AckMessage) : (publishReply ack).pending = [] := by
  rcases publishReply_cases ack with hreports | ⟨payload, -, heq⟩
  · exact hreports.pending
  · rw [heq]
    rfl

theorem phase_send (frame : Frame) (after : AfterSend) :
    (ServePc.send frame after).phase = after.pc.phase := by
  cases after <;> rfl

theorem phase_sendError (text : Bytes) (after : AfterSend) :
    (sendError text after).phase = after.pc.phase := by
  unfold sendError
  split
  · exact phase_send _ _
  · rfl

theorem phase_subscribeNext (payload : Bytes) : (subscribeNext payload).phase = .session := by
  unfold subscribeNext
  split
  · exact phase_sendError _ _
  · split
    · exact phase_sendError _ _
    · rfl

theorem phase_publishNext (payload : Bytes) : (publishNext payload).phase = .session := by
  unfold publishNext
  split
  · exact phase_sendError _ _
  · split
    · exact phase_sendError _ _
    · rfl

theorem phase_publishReply (ack : AckMessage) : (publishReply ack).phase = .session := by
  unfold publishReply
  split
  · exact phase_sendError _ _
  · rfl

/-- The first frame starts the session, or ends it. -/
theorem phase_connectNext (frame : Frame) :
    (connectNext frame).phase = if frame.connects then .session else .leaving := by
  have hquit : ∀ text, (sendError text .quit).phase = .leaving := fun text =>
    phase_sendError text .quit
  unfold connectNext Frame.connects
  by_cases htype : frame.type = typeConnect
  · rw [if_neg (not_not.mpr htype)]
    cases decodeConnect frame.payload with
    | error err => simpa [Except.isOk, Except.toBool] using hquit _
    | ok message => simp [htype, Except.isOk, Except.toBool, ServePc.phase]
  · rw [if_pos htype]
    simpa [htype] using hquit _

/-- A step of `serve` on a connection that does not drain makes the request in hand, or keeps
    it. -/
theorem ServeMove.pending (h : ServeMove s c a pc pc' bus obs) (hpc : c.serve = pc)
    (hdraining : c.draining = false) (hsaw : pc.sawDraining = false) :
    (c.request? a).toList ++ pc'.pending = pc.pending := by
  unfold Connection.request?
  rw [hpc]
  cases h with
  -- a SUBSCRIBE and a PUBLISH pass their request on to the call of the broker
  | @subscribe frame htype =>
    obtain ⟨type, payload⟩ := frame
    obtain rfl : type = typeSubscribe := htype
    exact pending_subscribeNext payload
  | @publish frame htype =>
    obtain ⟨type, payload⟩ := frame
    obtain rfl : type = typePublish := htype
    rfl
  -- an ACK and a PING ask for nothing
  | @ackInvalid frame err htype =>
    obtain ⟨type, payload⟩ := frame
    obtain rfl : type = typeAck := htype
    exact (reports_sendError _ _).pending
  | @ackUnknown frame ack htype | @ackKnown frame ack ch htype | @ping frame htype =>
    obtain ⟨type, payload⟩ := frame
    obtain rfl := htype
    rfl
  -- an UNSUBSCRIBE makes its request here, if its payload is well formed
  | @unsubscribeInvalid frame err htype hdec | @unsubscribeUnknown frame message htype hdec =>
    obtain ⟨type, payload⟩ := frame
    obtain rfl := htype
    simp only [ServePc.pending, Frame.request?_unsubscribe]
    rw [hdec]
    rfl
  | @unsupported frame hsub hpub hack hping hunsub =>
    rw [ServePc.pending, Frame.request?, if_neg hsub, if_neg hpub, if_neg hunsub]
    rw [(reports_sendError _ _).pending]
    simp [hunsub]
  | subscribeDraining hb | publishDraining hb =>
    -- neither the connection nor the server drains
    obtain rfl := hsaw
    rw [hdraining] at hb
    cases hb
  | @isDraining request => cases request <;> rfl
  | publishAllowed => exact pending_publishNext _
  | subscribeError | sendReport => exact (reports_sendError _ _).pending
  | publishReturn => exact pending_publishReply _
  | send | sendIgnore => exact (AfterSend.reports_pc _).pending
  | _ => rfl

/-- A step makes the request in hand or keeps it, unless the server drains. -/
theorem ConnMove.pending (h : ConnMove s c a out) (hread : a ≠ .serveRead)
    (hdraining : c.draining = false) (hsaw : c.serve.sawDraining = false) :
    (c.request? a).toList ++ out.conn.serve.pending = c.serve.pending := by
  cases h with
  | serve hpc hm =>
    rw [hpc] at hsaw ⊢
    exact hm.pending hpc hdraining hsaw
  | connect | read => exact absurd rfl hread
  | @unsubscribe frame message sub hpc htype hdec =>
    obtain ⟨type, payload⟩ := frame
    obtain rfl := htype
    unfold Connection.request?
    rw [hpc]
    simp only [ServePc.pending, Frame.request?_unsubscribe]
    rw [hdec]
    rfl
  | store hpc | replaced hpc | spawn hpc | acknowledge hpc | abort hpc =>
    rw [hpc]
    rfl
  | deliver _ hm => cases hm <;> rfl
  | graceful _ hm => cases hm <;> rfl
  | close _ hm => cases hm <;> rfl
  | _ => rfl

/-- Only `ReadFrame` ends the handshake, and the session. -/
theorem ServeMove.phase (h : ServeMove s c a pc pc' bus obs) (hfails : a ≠ .serveReadFails) :
    pc'.phase = pc.phase := by
  cases h with
  | handshakeFails | readFails => exact absurd rfl hfails
  | subscribe => exact phase_subscribeNext _
  | publishAllowed => exact phase_publishNext _
  | publishReturn => exact phase_publishReply _
  | ackInvalid | unsupported | publishDraining | subscribeError | sendReport =>
    exact phase_sendError _ _
  | send | sendIgnore => exact (phase_send _ _).symm
  | _ => rfl

/-- Only a read, or one that fails, takes `serve` to its next phase. -/
theorem ConnMove.phase (h : ConnMove s c a out) (hread : a ≠ .serveRead)
    (hfails : a ≠ .serveReadFails) : out.conn.serve.phase = c.serve.phase := by
  cases h with
  | serve hpc hm =>
    rw [hpc]
    exact hm.phase hfails
  | connect | read => exact absurd rfl hread
  | store hpc | replaced hpc | spawn hpc | acknowledge hpc | unsubscribe hpc | abort hpc =>
    rw [hpc]
    rfl
  | _ => rfl

/-- `isDraining` goes on with what it has read from the server. -/
theorem ServeMove.sawDraining (h : ServeMove s c a pc pc' bus obs) (hd : s.draining = false) :
    pc'.sawDraining = false := by
  cases h with
  | @subscribe frame =>
    rcases subscribeNext_cases frame.payload with hreports | ⟨message, -, heq⟩
    · exact hreports.sawDraining
    · rw [heq]
      rfl
  | isDraining => exact hd
  | @publishAllowed payload =>
    rcases publishNext_cases payload with hreports | ⟨message, -, heq⟩
    · exact hreports.sawDraining
    · rw [heq]
      rfl
  | @publishReturn message call r =>
    rcases publishReply_cases (publishAck message r) with hreports | ⟨payload, -, heq⟩
    · exact hreports.sawDraining
    · rw [heq]
      rfl
  | ackInvalid | unsupported | publishDraining | subscribeError | sendReport =>
    exact (reports_sendError _ _).sawDraining
  | send | sendIgnore => exact (AfterSend.reports_pc _).sawDraining
  | _ => rfl

theorem ConnMove.sawDraining (h : ConnMove s c a out) (hd : s.draining = false)
    (hsaw : c.serve.sawDraining = false) : out.conn.serve.sawDraining = false := by
  cases h with
  | serve _ hm => exact hm.sawDraining hd
  | connect => exact (reports_connectNext _).sawDraining
  | read | store | replaced | spawn | acknowledge | unsubscribe | abort => rfl
  | _ => exact hsaw

/-! ## Draining -/

/-- `s.draining` is never reset. -/
theorem ServerEffect.draining {a : ServerAction} {os : List ServerObs}
    (h : ServerEffect s a s' os) (hd : s.draining = true) : s'.draining = true := by
  cases h with
  | gracefulShutdown => rfl
  | _ => exact hd

theorem Server.step_draining {a : ServerAction} {os : List ServerObs}
    (h : s.step a = some (s', os)) (hd : s'.draining = false) : s.draining = false := by
  by_contra hne
  rw [(server_step_effect h).draining (by simpa using hne)] at hd
  cases hd

/-- A server that drains goes on to do so. -/
theorem WireEffect.draining {a : WireAction} (h : WireEffect w a w' os)
    (hd : w'.server.draining = false) : w.server.draining = false := by
  cases h with
  | server _ hstep | readFails _ hstep | readClosed _ _ hstep => exact Server.step_draining hstep hd
  | peerWrite | peerEnd => exact hd
  | read _ hsend hserve => exact Server.step_draining hsend (Server.step_draining hserve hd)

/-- A connection drains only once `gracefulClose` has been started. -/
theorem ConnMove.graceful_draining (h : ConnMove s c a out)
    (hinv : c.draining = true → c.graceful ≠ .idle) (hd : out.conn.draining = true) :
    out.conn.graceful ≠ .idle := by
  cases h with
  | graceful hpc hm => cases hm <;> exact nofun
  | gracefulStart | drainFailed | closeTransport | gracefulNet => exact nofun
  | _ => exact hinv hd

/-- A connection drains only in a server that does. -/
theorem conn_draining {config : Config} {G : Server → ServerAction → Prop} {log : List ServerObs}
    (h : (Server.lts config).Reach G log s) (hc : s.connections k = some c)
    (hd : s.draining = false) :
    c.draining = false ∧ c.graceful = .idle := by
  have hidle : c.graceful = .idle := by
    by_contra hne
    rw [(close_inv h).graceful k c hc hne] at hd
    cases hd
  have hinv : c.draining = true → c.graceful ≠ .idle := by
    refine Server.conn_induct h hc (I := fun _ _ c => c.draining = true → c.graceful ≠ .idle) ?_ ?_
    · exact fun _ => nofun
    · intro log s a s' os c c' obs b _ _ _ _ _ _ hch hbefore
      cases hch with
      | move hm => exact hm.graceful_draining hbefore
      | drain => exact fun _ => nofun
      | stay | peerSend | close => exact hbefore
  refine ⟨?_, hidle⟩
  by_contra hne
  exact hinv (by simpa using hne) hidle

/-! ## Runs -/

/-- What the requests and the frames of a connection have in common. -/
structure SessionInv (r : SessionReport) (c : Connection) (stream : ByteStream) : Prop where
  made : r.made ++ c.serve.pending = requestsOf r.frames
  handshake : c.serve.phase = .handshake → r.frames = []
  session : c.serve.phase = .session →
    ∃ frame frames, r.frames = frame :: frames ∧ frame.connects = true
  left : c.serve.phase = .leaving → r.cut = true ∨ stream.fails = true ∨
    ∃ frame frames, r.frames = frame :: frames ∧ frame.connects = false
  saw : c.serve.sawDraining = false

section Inv

variable {c' : Connection} {stream stream' : ByteStream} {r r' : SessionReport}

/-- A move that leaves `serve` and the frames as they are. -/
theorem SessionInv.frame (hinv : SessionInv r c stream) (hserve : c'.serve = c.serve)
    (hfails : stream.fails = true → stream'.fails = true) (bytes : Bytes) :
    SessionInv (r.append ⟨bytes, [], [], false⟩) c' stream' := by
  obtain ⟨hmade, hhandshake, hsession, hleft, hsaw⟩ := hinv
  refine ⟨?_, ?_, ?_, ?_, ?_⟩ <;>
    simp only [SessionReport.append, List.append_nil, Bool.or_false, hserve]
  · exact hmade
  · exact hhandshake
  · exact hsession
  · intro hphase
    rcases hleft hphase with hcut | hf | hrejected
    · exact .inl hcut
    · exact .inr (.inl (hfails hf))
    · exact .inr (.inr hrejected)
  · exact hsaw

/-- `serve` gets an error from `ReadFrame`. -/
theorem SessionInv.abort (hinv : SessionInv r c stream)
    (hpc : c.serve = .handshake ∨ c.serve = .reading) (cut : Bool)
    (hleft : cut = true ∨ stream.fails = true) :
    SessionInv (r.append ⟨[], [], [], cut⟩) { c with serve := .abort } stream where
  made := by
    have hmade := hinv.made
    rcases hpc with hpc | hpc <;> rw [hpc] at hmade <;>
      simpa [SessionReport.append, ServePc.pending] using hmade
  handshake := nofun
  session := nofun
  left _ := by
    rcases hleft with rfl | hfails
    · exact .inl (by simp [SessionReport.append])
    · exact .inr (.inl hfails)
  saw := rfl

/-- The first frame. -/
theorem SessionInv.connect (hinv : SessionInv r c stream) (hpc : c.serve = .handshake)
    (frame : Frame) : SessionInv (r.append ⟨[], [frame], [], false⟩)
      { c with serve := connectNext frame } stream' := by
  have hframes : r.frames = [] := hinv.handshake (by rw [hpc]; rfl)
  have hmade : r.made = [] := by
    have hmade := hinv.made
    rw [hpc, hframes] at hmade
    simpa [ServePc.pending, requestsOf] using hmade
  have hphase := phase_connectNext frame
  constructor
  · simp [SessionReport.append, hframes, hmade, requestsOf, (reports_connectNext frame).pending]
  · intro hhandshake
    rw [hphase] at hhandshake
    split at hhandshake <;> cases hhandshake
  · intro hsession
    rw [hphase] at hsession
    split at hsession
    · exact ⟨frame, [], by simp [SessionReport.append, hframes], ‹_›⟩
    · cases hsession
  · intro hleaving
    rw [hphase] at hleaving
    split at hleaving
    · cases hleaving
    · rename_i hrefused
      refine .inr (.inr ⟨frame, [], ?_, by simpa using hrefused⟩)
      simp [SessionReport.append, hframes]
  · exact (reports_connectNext frame).sawDraining

/-- A later frame. -/
theorem SessionInv.read (hinv : SessionInv r c stream) (hpc : c.serve = .reading)
    (frame : Frame) : SessionInv (r.append ⟨[], [frame], [], false⟩)
      { c with serve := .handle frame } stream' := by
  obtain ⟨first, frames, hframes, hconnects⟩ := hinv.session (by rw [hpc]; rfl)
  have hmade : r.made = frames.filterMap Frame.request? := by
    have hmade := hinv.made
    rw [hpc, hframes] at hmade
    simpa [ServePc.pending, requestsOf, hconnects] using hmade
  constructor
  · cases hrequest : frame.request? <;>
      simp [SessionReport.append, hframes, hmade, requestsOf, hconnects, ServePc.pending, hrequest]
  · intro hhandshake
    cases hhandshake
  · exact fun _ => ⟨first, frames ++ [frame], by simp [SessionReport.append, hframes], hconnects⟩
  · intro hleaving
    cases hleaving
  · rfl

/-- A step of a goroutine that does not read. -/
theorem SessionInv.move (hinv : SessionInv r c stream) (hm : ConnMove s c a out)
    (hread : a ≠ .serveRead) (hfails : a ≠ .serveReadFails) (hs : s.draining = false)
    (hd : c.draining = false) :
    SessionInv (r.append ⟨[], [], (c.request? a).toList, false⟩) out.conn stream := by
  have hphase := hm.phase hread hfails
  obtain ⟨hmade, hhandshake, hsession, hleft, hsaw⟩ := hinv
  refine ⟨?_, ?_, ?_, ?_, hm.sawDraining hs hsaw⟩ <;>
    simp only [SessionReport.append, List.append_nil, Bool.or_false, hphase]
  · rw [List.append_assoc, hm.pending hread hd hsaw]
    exact hmade
  · exact hhandshake
  · exact hsession
  · exact hleft

/-- Every move of a connection that does not drain keeps the invariant. -/
theorem SessionMove.inv (h : SessionMove s c stream c' stream' r') (hs : s.draining = false)
    (hd : c.draining = false) (hinv : SessionInv r c stream) :
    SessionInv (r.append r') c' stream' := by
  cases h with
  | other hserve => exact hinv.frame hserve id []
  | arrive hopen => exact hinv.frame rfl (fun hfails => stream.fails_append hfails hopen _) _
  | ends => exact hinv.frame rfl (fun hfails => stream.fails_ended hfails) []
  | move hread hfails hm => exact hinv.move hm hread hfails hs hd
  | connect _ hpc => exact hinv.connect hpc _
  | read _ hpc => exact hinv.read hpc _
  | fails hpc hfails => exact hinv.abort hpc false (.inr hfails)
  | closed hpc => exact hinv.abort hpc true (.inl rfl)

end Inv

section Runs

variable {config : Config} {log : List WireObs}

/-- While the server does not drain, the requests made and the one in hand are those of the frames
    read. -/
theorem session_inv (h : (Wire.lts config).Reach Lts.Always log w)
    (hc : w.server.connections k = some c) (hd : w.server.draining = false) :
    SessionInv (reportOf k log) c (w.streams k) := by
  refine Wire.session_induct h hc
    (I := fun r s c stream => s.draining = false → SessionInv r c stream) ?_ ?_ hd
  · exact fun _ _ _ => ⟨rfl, fun _ => rfl, nofun, nofun, rfl⟩
  · intro log w a w' os c c' hr hc hs hm ih hd'
    have hd := (wire_step_effect hs).draining hd'
    exact hm.inv hd (conn_draining (Wire.reach_server hr) hc hd).1 (ih hd)

/-- The frames of what has arrived are those read and those of what is unread. -/
theorem framesOf_arrived (h : (Wire.lts config).Reach Lts.Always log w) (k : ConnId) :
    framesOf (arrivedAt k log) = framesRead k log ++ framesOf (w.streams k).unread := by
  obtain ⟨p, hframed, heq⟩ := stream_inv h k
  rw [heq, framesOf_append hframed]

/-- The requests made are the first of those that the stream asks for. -/
theorem requestsMade_first (h : (Wire.lts config).Reach Lts.Always log w)
    (hd : w.server.draining = false) (k : ConnId) :
    requestsMade k log <+: requestsOf (framesOf (arrivedAt k log)) := by
  rw [framesOf_arrived h]
  refine List.IsPrefix.trans ?_ (requestsOf_mono (List.prefix_append _ _))
  cases hc : w.server.connections k with
  | none =>
    rw [show requestsMade k log = [] from congrArg SessionReport.made (reportOf_absent h hc)]
    exact List.nil_prefix
  | some c =>
    rw [show requestsOf (framesRead k log) = _ from (session_inv h hc hd).made.symm]
    exact List.prefix_append _ _

/-- `serve` has returned from its loop, or is at `ReadFrame` and has no frame to read. -/
def Connection.Rests (c : Connection) (stream : ByteStream) : Prop :=
  (c.serve = .abort ∨ c.serve = .closing ∨ c.serve = .finished) ∨
    ((c.serve = .handshake ∨ c.serve = .reading) ∧ nextFrame stream.unread = none)

instance (c : Connection) (stream : ByteStream) : Decidable (c.Rests stream) :=
  inferInstanceAs (Decidable ((_ ∨ _) ∨ _))

/-- Then no request is in hand, and no frame is left that would ask for one. -/
theorem SessionInv.rests {r : SessionReport} {stream : ByteStream} (hinv : SessionInv r c stream)
    (hrests : c.Rests stream) (hcut : r.cut = false) :
    r.made = requestsOf (r.frames ++ framesOf stream.unread) := by
  have hmade := hinv.made
  have hleft := hinv.left
  rcases hrests with hpc | ⟨hpc, hnone⟩
  · -- `serve` has returned: the stream fails here, or the first frame was refused
    have hpending : c.serve.pending = [] := by
      rcases hpc with hpc | hpc | hpc <;> rw [hpc] <;> rfl
    have hphase : c.serve.phase = .leaving := by
      rcases hpc with hpc | hpc | hpc <;> rw [hpc] <;> rfl
    rw [hpending, List.append_nil] at hmade
    rcases hleft hphase with h | hfails | ⟨frame, frames, hframes, hrefused⟩
    · exact nomatch hcut.symm.trans h
    · rw [stream.framesOf_fails hfails, List.append_nil]
      exact hmade
    · rw [hmade, hframes]
      simp [requestsOf, hrefused]
  · -- the bytes that are left do not begin with a frame
    have hpending : c.serve.pending = [] := by
      rcases hpc with hpc | hpc <;> rw [hpc] <;> rfl
    rw [hpending, List.append_nil] at hmade
    rw [framesOf, nextFrame_exact.scan_of_none writeFrame_ne_nil hnone, List.append_nil]
    exact hmade

/-- `serve` of connection `k` has handled all that has arrived, and the server did not close the
    connection before. -/
def Wire.Served (w : Wire) (log : List WireObs) (k : ConnId) : Prop :=
  .cut k ∉ log ∧ ∃ c, w.server.connections k = some c ∧ c.Rests (w.streams k)

/-- Then the requests are all that the stream asks for. -/
theorem requestsMade_eq (h : (Wire.lts config).Reach Lts.Always log w)
    (hd : w.server.draining = false) (hserved : w.Served log k) :
    requestsMade k log = requestsOf (framesOf (arrivedAt k log)) := by
  obtain ⟨hcut, c, hc, hrests⟩ := hserved
  rw [framesOf_arrived h]
  exact (session_inv h hc hd).rests hrests (decide_eq_false hcut)

/-- A connection makes no request before a CONNECT. -/
theorem requestsMade_connects (h : (Wire.lts config).Reach Lts.Always log w)
    (hd : w.server.draining = false) (hne : requestsMade k log ≠ []) :
    ∃ first rest message, framesOf (arrivedAt k log) = first :: rest ∧ first.type = typeConnect ∧
      encodeConnect message = .ok first.payload := by
  have hpart := requestsMade_first h hd k
  cases hframes : framesOf (arrivedAt k log) with
  | nil =>
    rw [hframes] at hpart
    exact absurd (List.prefix_nil.mp hpart) hne
  | cons first rest =>
    rw [hframes, requestsOf] at hpart
    cases hconnects : first.connects with
    | false =>
      rw [hconnects] at hpart
      exact absurd (List.prefix_nil.mp hpart) hne
    | true =>
      obtain ⟨htype, message, hmessage⟩ := Frame.connects_iff.mp hconnects
      exact ⟨first, rest, message, rfl, htype, hmessage⟩

/-- Each request is asked for by a frame of its own, in the order of the frames. -/
theorem requestsMade_asked (h : (Wire.lts config).Reach Lts.Always log w)
    (hd : w.server.draining = false) (k : ConnId) :
    ∃ asking, asking.Sublist (framesOf (arrivedAt k log)).tail ∧
      List.Forall₂ Frame.Asks asking (requestsMade k log) := by
  obtain ⟨more, hmore⟩ := requestsMade_first h hd k
  obtain ⟨asking, hsub, hasks⟩ := requestsOf_asked (framesOf (arrivedAt k log))
  rw [← hmore] at hasks
  exact ⟨_, (List.take_sublist _ _).trans hsub, List.forall₂_take_append _ _ _ hasks⟩

/-- A stream that is cut leads to the first of the requests that the whole stream leads to. -/
theorem requestsMade_of_part (h : (Wire.lts config).Reach Lts.Always log w)
    (hd : w.server.draining = false) (hserved : w.Served log k) {config' : Config}
    {log' : List WireObs} {k' : ConnId} (h' : (Wire.lts config').Reach Lts.Always log' w')
    (hd' : w'.server.draining = false) (hpart : arrivedAt k' log' <+: arrivedAt k log) :
    requestsMade k' log' <+: requestsMade k log := by
  rw [requestsMade_eq h hd hserved]
  exact (requestsMade_first h' hd' k').trans (requestsOf_mono (framesOf_mono hpart))

end Runs

end EventBus
