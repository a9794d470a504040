import EventBus.Spec.ClientPublish
import EventBus.Spec.ServerFrames
import EventBus.Spec.ServerPublish
import EventBus.Spec.SessionStep

/-!
# Publish acknowledgements

Calls of `PublishWithResult` on one connection with distinct message IDs. A message that
`serve` publishes is the message of the one call that registered its ID, and an ACK that
`readLoop` reads is the answer of `serve` to such a message. A call therefore returns what
the broker returned for its own event, unless it gave up.

## Key results

- `published_sent`: the messages that `serve` publishes are messages of the client
- `ack_answer`: an ACK that is read answers a message that was published
- `publish_acknowledged`: what `serve` answers and what the calls return
-/

namespace EventBus

/-- The writes of `serve` on connection `k` and those of the client succeed. -/
def WritesSucceed (k : ConnId) (s : Session) : SessionAction → Prop
  | .server a => ServeWrites k s.server a
  | .client a => CallWrites s.client a

section Session

variable {config : Config} {k : ConnId} {log : List SessionObs} {s : Session}

theorem Session.reach_serveWrites (h : (Session.lts config k).Reach (WritesSucceed k) log s) :
    (Server.lts config).Reach (ServeWrites k) (serverLog log) s.server :=
  Session.reach_server_of (fun _ _ hg => hg) (fun _ _ _ => by simp) h

theorem Session.reach_callWrites (h : (Session.lts config k).Reach (WritesSucceed k) log s) :
    Client.lts.Reach CallWrites (clientLog log) s.client :=
  Session.reach_client_of (fun _ _ hg => hg) (fun _ _ => by simp [CallWrites]) h

/-! ## From the client to the broker -/

variable {G : Session → SessionAction → Prop}

/-- The messages that `serve` publishes are messages that the client has sent, in order. -/
theorem published_sent (h : (Session.lts config k).Reach G log s) :
    ((publishings (connLog k (serverLog log))).map Prod.fst).Sublist
      (sentPublishes (clientLog log)) := by
  have hserver := Session.reach_server h
  cases hc : s.server.connections k with
  | none =>
    rw [connLog_eq_nil hserver hc]
    exact List.nil_sublist _
  | some c =>
    refine (publishes_read hserver k).trans ?_
    rw [sentPublishes, (wire_inv h).toServer c hc, List.filterMap_append, ← publishReads_eq]
    exact List.sublist_append_left _ _

/-- A message published under the ID of a call is the message of that call. -/
theorem published_message (h : (Session.lts config k).Reach G log s)
    (hd : DistinctIDs (clientLog log)) {p : PublishMessage × CallId}
    (hp : p ∈ publishings (connLog k (serverLog log))) {call : ClientCall} {ch : ReplyChan}
    {event : Event} (hreg : .registered call ch event ∈ clientLog log) (hid : p.1.id = event.id) :
    p.1 = event.message := by
  have hclient := Session.reach_client h
  obtain ⟨call', ch', event', _, hreg', hmsg, -⟩ :=
    sent_inv hclient ((published_sent h).subset (List.mem_map_of_mem hp))
  obtain rfl := hd call' call ch' ch event' event hreg' hreg (by rw [← hid, ← hmsg]; rfl)
  rw [← hmsg, registered_once hclient hreg hreg']

/-- A message ID is published once. -/
theorem published_once (h : (Session.lts config k).Reach G log s)
    (hd : DistinctIDs (clientLog log)) {p p' : PublishMessage × CallId}
    (hp : p ∈ publishings (connLog k (serverLog log)))
    (hp' : p' ∈ publishings (connLog k (serverLog log))) (hid : p.1.id = p'.1.id) : p = p' := by
  have hnodup : ((publishings (connLog k (serverLog log))).map (·.1.id)).Nodup := by
    have hsent := sent_nodup (Session.reach_client h) hd
    have := hsent.sublist ((published_sent h).map PublishMessage.id)
    rwa [List.map_map] at this
  exact List.inj_on_of_nodup_map hnodup hp hp' hid

/-- A message that was published fits in a frame. -/
theorem published_writable (h : (Session.lts config k).Reach G log s)
    {p : PublishMessage × CallId} (hp : p ∈ publishings (connLog k (serverLog log))) :
    ∃ payload bytes, encodePublish p.1 = .ok payload ∧
      writeFrame ⟨typePublish, payload⟩ = .ok bytes := by
  have hserver := Session.reach_server h
  obtain ⟨frame, hread, htype, hdec⟩ := published_decoded hserver hp
  obtain ⟨bytes, hw⟩ := read_writable hserver hread
  rw [decodePublish_ok_iff] at hdec
  exact ⟨frame.payload, bytes, hdec, htype ▸ hw⟩

/-! ## From the broker to the client -/

/-- An ACK that `readLoop` has read is an answer of `serve`. -/
theorem ack_answer (h : (Session.lts config k).Reach (WritesSucceed k) log s) {c : Connection}
    (hc : s.server.connections k = some c) {answers : List Answer}
    {inflight : List (PublishMessage × CallId)}
    (hans : Answers (connLog k (serverLog log)) s.server.bus c.serve answers inflight)
    {ack : AckMessage} (hread : AckRead (clientLog log) ack) :
    ∃ a ∈ answers, ack = publishAck a.message a.ret := by
  have hserver := Session.reach_server h
  obtain ⟨frame, ho, htype, hdec⟩ := hread
  have hwrote : frame ∈ (connLog k (serverLog log)).filterMap ConnObs.wrote? := by
    rw [(wire_inv h).toClient]
    exact List.mem_append_left _ (List.mem_filterMap.mpr ⟨_, ho, rfl⟩)
  obtain ⟨o, ho, heq⟩ := List.mem_filterMap.mp hwrote
  cases o with
  | wrote writer frame' =>
    obtain rfl : frame' = frame := by simpa [ConnObs.wrote?] using heq
    -- no other writer writes an ACK
    cases writer with
    | serve =>
      have hmem : frame'.payload ∈ acksWritten (connLog k (serverLog log)) :=
        List.mem_filterMap.mpr ⟨_, ho, by simp [htype]⟩
      rw [hans.written] at hmem
      obtain ⟨a, ha, hpayload⟩ := List.mem_map.mp hmem
      have henc := (hans.valid a ha).encoded
      rw [hpayload, ← decodeAck_ok_iff, hdec] at henc
      exact ⟨a, ha, Except.ok.inj henc⟩
    | graceful =>
      obtain ⟨_, _, -, rfl⟩ := (written_inv hserver hc).graceful _ ho
      exact absurd htype (by decide : typeShutdown ≠ typeAck)
    | delivery sub ch =>
      have hevent := (delivery_frame hserver hc ho).2.1
      exact absurd (hevent.symm.trans htype) (by decide)
  | _ => cases heq

/-- The broker has returned `r` for this event, which `serve` published on connection `k`. -/
def Outcome (k : ConnId) (log : List SessionObs) (event : Event) (r : Ret) : Prop :=
  ∃ message call, (message, call) ∈ publishings (connLog k (serverLog log)) ∧
    message.event = event ∧ .returned call r ∈ busLog (serverLog log)

/-- What the broker returned for the event of an answer. -/
theorem outcome_iff (h : (Session.lts config k).Reach G log s) (hd : DistinctIDs (clientLog log))
    {a : Answer} (ha : (a.message, a.call) ∈ publishings (connLog k (serverLog log)))
    (hvalid : a.Valid s.server.bus) (r : Ret) : Outcome k log a.message.event r ↔ a.ret = r := by
  have hlog := log_inv (Server.reach_bus (Session.reach_server h))
  constructor
  · rintro ⟨message, call, hp, hevent, ho⟩
    have hid : message.id = a.message.id := congrArg Event.id hevent
    obtain ⟨-, rfl⟩ := Prod.mk.inj (published_once h hd hp ha hid)
    have hcalls := hvalid.returned
    rw [(hlog.returned _ r).mp ho] at hcalls
    simpa using hcalls.symm
  · rintro rfl
    exact ⟨a.message, a.call, ha, rfl, (hlog.returned _ _).mpr hvalid.returned⟩

/-- What a call makes of the answer to its message. -/
theorem publishResult_publishAck (message : PublishMessage) {r : Ret}
    (hr : r = .published ∨ r = .duplicate ∨ ∃ err, r = .failed err) :
    (publishResult (publishAck message r) = .status .accepted ↔ r = .published) ∧
    (publishResult (publishAck message r) = .status .duplicate ↔ r = .duplicate) ∧
    ∀ text, publishResult (publishAck message r) = .failed (.rejected text) ↔
      ∃ err, err.text = text ∧ r = .failed err := by
  rcases hr with rfl | rfl | ⟨err, rfl⟩ <;>
    simp [publishResult, publishAck, ackRejected, ackDuplicate, ackPublished]

/-- Publish acknowledgements are faithful: `serve` answers the messages it publishes one by
    one, in the order in which it read them, and a call that does not give up returns what
    the broker returned for its event. -/
theorem publish_acknowledged (config : Config) (k : ConnId) (log : List SessionObs) (s : Session)
    (h : (Session.lts config k).Reach (WritesSucceed k) log s) (hd : DistinctIDs (clientLog log)) :
    (∀ c, s.server.connections k = some c →
      ((publishings (connLog k (serverLog log))).map Prod.fst).Sublist
        (publishReads (connLog k (serverLog log))) ∧
      (∃ answers inflight,
        Answers (connLog k (serverLog log)) s.server.bus c.serve answers inflight) ∧
      ∀ message call, (message, call) ∈ publishings (connLog k (serverLog log)) →
        (∀ r, ∃ payload, encodeAck (publishAck message r) = .ok payload) ∧
        ∀ r, .returned call r ∈ busLog (serverLog log) → c.netClosed = false →
          ∃ payload os server, encodeAck (publishAck message r) = .ok payload ∧
            (Server.lts config).Steps (ServeWrites k) s.server os server ∧
            payload ∈ acksWritten (connLog k (serverLog log ++ os))) ∧
    ∀ call ch event ret, .registered call ch event ∈ clientLog log →
      .returned call ret ∈ clientLog log → ret ≠ .failed .closed →
      (∀ err, ret ≠ .failed (.ctx err)) →
      (ret = .status .accepted ↔ Outcome k log event .published) ∧
      (ret = .status .duplicate ↔ Outcome k log event .duplicate) ∧
      ∀ text, ret = .failed (.rejected text) ↔
        ∃ err, err.text = text ∧ Outcome k log event (.failed err) := by
  have hserver := Session.reach_serveWrites h
  have hlog := log_inv (Server.reach_bus hserver)
  constructor
  · intro c hc
    refine ⟨publishes_read hserver k, answers_inv hserver hc, fun message call hp => ⟨?_, ?_⟩⟩
    · obtain ⟨frame, -, -, hdec⟩ := published_decoded hserver hp
      exact encodeAck_publishAck hdec
    · intro r ho hnet
      exact ack_progress hserver hc hnet hp ((hlog.returned call r).mp ho)
  intro call ch event ret hreg ho hclosed hctx
  -- an event that does not fit in a frame is not published
  have hnone : (∀ payload bytes, encodePublish event.message = .ok payload →
      writeFrame ⟨typePublish, payload⟩ ≠ .ok bytes) → ∀ r, ¬Outcome k log event r := by
    rintro hfit r ⟨message, _, hp, rfl, -⟩
    obtain ⟨payload, bytes, henc, hw⟩ := published_writable h hp
    exact hfit payload bytes henc hw
  cases returned_result (Session.reach_client h) hreg ho with
  | @acked ack hread hid =>
    cases hc : s.server.connections k with
    | none =>
      obtain ⟨frame, hframe, -⟩ := hread
      have hwire := (wire_inv h).toClient
      rw [connLog_eq_nil hserver hc, eq_comm, List.filterMap_nil, List.append_eq_nil_iff] at hwire
      have hmem : frame ∈ (clientLog log).filterMap ClientObs.read? :=
        List.mem_filterMap.mpr ⟨_, hframe, rfl⟩
      rw [hwire.1] at hmem
      cases hmem
    | some c =>
      obtain ⟨answers, inflight, hans⟩ := answers_inv hserver hc
      obtain ⟨a, ha, rfl⟩ := ack_answer h hc hans hread
      have hvalid := hans.valid a ha
      have hp : (a.message, a.call) ∈ publishings (connLog k (serverLog log)) := by
        rw [hans.published]
        exact List.mem_append_left _ (List.mem_map_of_mem ha)
      have hmid : a.message.id = event.id := by
        rw [← hid]
        unfold publishAck
        split <;> rfl
      have hevent : a.message.event = event := by
        have hmsg : a.message = event.message := published_message h hd hp hreg hmid
        rw [hmsg]
        rfl
      subst hevent
      obtain ⟨haccepted, hduplicate, hrejected⟩ := publishResult_publishAck a.message hvalid.result
      simp only [outcome_iff h hd hp hvalid]
      exact ⟨haccepted, hduplicate, hrejected⟩
  | message henc =>
    have := hnone (by rw [henc]; exact nofun)
    simp [this]
  | write =>
    obtain ⟨payload, err, henc, hw⟩ := write_failed (Session.reach_callWrites h) hreg ho
    have := hnone fun payload' bytes henc' hw' => by
      obtain rfl := Except.ok.inj (henc.symm.trans henc')
      exact nomatch hw.symm.trans hw'
    simp [this]
  | ctx => exact absurd rfl (hctx _)
  | closed => exact absurd rfl hclosed

end Session

/-! ## Runs -/

/-- A step in which a write fails. -/
def SessionAction.writeFails (k : ConnId) : SessionAction → Bool
  | .server (.conn k' (.serveSendFails _)) => k' = k
  | .client (.call _ (.writeFails _)) => true
  | _ => false

theorem writesSucceed_of_not {k : ConnId} {s : Session} {a : SessionAction}
    (h : a.writeFails k = false) : WritesSucceed k s a := by
  cases a with
  | server a =>
    rintro text rfl
    simp [SessionAction.writeFails] at h
  | client a =>
    rintro call text frame after rfl
    cases h

/-- A call of `PublishWithResult` for an event of topic `t` with idempotency key `k`. -/
def publishWithResultRun (call : ClientCall) (id : UInt8) : List SessionAction :=
  clientRun [.invoke call (.publishWithResult .background ⟨[id], [107], [116], [], []⟩ (.error [])),
    .call call .register, .call call .check, .call call .write]

/-- `serve` reads a PUBLISH frame, calls the broker and writes the ACK. -/
def servePublishRun (call : CallId) : List SessionAction :=
  serverRun [.conn 0 .serveRead, .conn 0 .serveDispatch, .conn 0 .isDraining,
    .conn 0 .isDrainingConn, .conn 0 (.publishCall call), .bus (.publishEnter call [] []),
    .conn 0 .publishReturn, .conn 0 .serveSend]

/-- `readLoop` reads an ACK, and the call it is for returns. -/
def acknowledgedRun (call : ClientCall) : List SessionAction :=
  clientRun [.read, .dispatch, .reply, .call call .acknowledged, .call call .leave]

/-- The calls that have registered an event. -/
def registrations (log : List ClientObs) : List (ClientCall × Event) :=
  log.filterMap fun
    | .registered call _ event => some (call, event)
    | _ => none

theorem distinctIDs_of_nodup {log : List ClientObs}
    (h : ((registrations log).map (·.2.id)).Nodup) : DistinctIDs log := by
  intro call call' ch ch' event event' hreg hreg' hid
  have hmem : (call, event) ∈ registrations log := List.mem_filterMap.mpr ⟨_, hreg, rfl⟩
  have hmem' : (call', event') ∈ registrations log := List.mem_filterMap.mpr ⟨_, hreg', rfl⟩
  exact congrArg Prod.fst (List.inj_on_of_nodup_map h hmem hmem' hid)

/-- Two concurrent calls with one idempotency key: the broker takes the first event, and the
    second is a duplicate. -/
theorem publish_acknowledged_duplicate :
    ∃ log s, (Session.lts ⟨2, 0, 32, .block⟩ 0).Reach (WritesSucceed 0) log s ∧
      DistinctIDs (clientLog log) ∧
      .returned 0 (.status .accepted) ∈ clientLog log ∧
      Outcome 0 log ⟨[1], [107], [116], [], []⟩ .published ∧
      .returned 1 (.status .duplicate) ∈ clientLog log ∧
      Outcome 0 log ⟨[2], [107], [116], [], []⟩ .duplicate := by
  obtain ⟨log, s, hr, hnodup, hreg, hret, hreg', hret'⟩ :=
    Lts.reach_of_runWhere (M := Session.lts ⟨2, 0, 32, .block⟩ 0)
      (G := fun _ a => a.writeFails 0 = false) rfl
      (dialRun 0 ++ publishWithResultRun 0 1 ++ publishWithResultRun 1 2 ++ servePublishRun 0 ++
        servePublishRun 1 ++ acknowledgedRun 0 ++ acknowledgedRun 1)
      (Q := fun r => ((registrations (clientLog r.2)).map (·.2.id)).Nodup ∧
        .registered 0 0 ⟨[1], [107], [116], [], []⟩ ∈ clientLog r.2 ∧
        .returned 0 (.status .accepted) ∈ clientLog r.2 ∧
        .registered 1 1 ⟨[2], [107], [116], [], []⟩ ∈ clientLog r.2 ∧
        .returned 1 (.status .duplicate) ∈ clientLog r.2) (by decide)
  have hreach := hr.mono (H := WritesSucceed 0) fun _ _ => writesSucceed_of_not
  have hd := distinctIDs_of_nodup hnodup
  have hresult := (publish_acknowledged ⟨2, 0, 32, .block⟩ 0 log s hreach hd).2
  refine ⟨log, s, hreach, hd, hret, ?_, hret', ?_⟩
  · exact (hresult 0 0 _ _ hreg hret nofun nofun).1.mp rfl
  · exact (hresult 1 1 _ _ hreg' hret' nofun nofun).2.1.mp rfl

end EventBus
