import EventBus.Spec.ServerConsumers
import EventBus.Spec.ServerPublish

/-!
# A client that publishes to a topic it is subscribed to

`serve` reads no frame while it waits in `PublishWithResult`. If the broker waits for room in
a queue of the connection itself and the goroutine that empties the queue waits for an ACK,
that ACK may be behind the PUBLISH frame in the input. A client that acknowledges events
only while no PUBLISH of its own to such a topic is unanswered never gets there.

## Key results

- `topics_inv`: a connection receives events of the topics it has sent a SUBSCRIBE frame for
- `pipeline_inv`: what is ahead of an ACK in the input
- `no_wait_cycle`: the condition excludes the cycle
- `wait_cycle_pipelined`: three pipelined PUBLISH frames and a queue of one
-/

namespace EventBus

variable {pc pc' : ServePc} {bus : Option Action} {obs : List ConnObs} {message : PublishMessage}
  {s : Server} {c : Connection}

/-! ## The cycle -/

/-- Call `call` waits for room in the queue of `sub`. -/
def Bus.Blocked (w : Bus) (call : CallId) (sub : SubPtr) : Prop :=
  (∃ ev todo, w.calls call = some (.enqueueSelect ev sub todo)) ∧
    ∃ subscription, w.subs[sub]? = some subscription ∧ subscription.done = false ∧
      subscription.events.cap ≤ subscription.events.buf.length

/-- The delivery goroutine of `sub` waits for an ACK that `serve` has not read. -/
def Connection.AckUnread (c : Connection) (sub : SubPtr) : Prop :=
  ∃ x payload ch attempt acknowledged,
    c.deliveries sub = some (.waiting x payload ch attempt) ∧
    c.acks[ch]? = some acknowledged ∧ acknowledged.buf = [] ∧
    ∃ frame ∈ c.input, frame.type = typeAck ∧
      ∃ ack, decodeAck frame.payload = .ok ack ∧ ack.id = x.event.id

/-- `serve` waits for room in a queue of its connection, and the connection's delivery goroutine
    waits for an ACK that is behind the PUBLISH frame. -/
def Server.WaitCycle (s : Server) (k : ConnId) : Prop :=
  ∃ c message call sub, s.connections k = some c ∧ c.serve = .publishWait message call ∧
    s.bus.Blocked call sub ∧ c.AckUnread sub

/-! ## The topics of a connection -/

/-- The topic of a SUBSCRIBE frame. -/
def subscribeTopic (frame : Frame) : Option Bytes :=
  if frame.type = typeSubscribe then (decodeTopic frame.payload).toOption.map TopicMessage.topic
  else none

/-- The topics of the SUBSCRIBE frames among `frames`. -/
def subscribedTopics (frames : List Frame) : List Bytes := frames.filterMap subscribeTopic

@[simp] theorem subscribedTopics_append (frames frames' : List Frame) :
    subscribedTopics (frames ++ frames') = subscribedTopics frames ++ subscribedTopics frames' :=
  List.filterMap_append

/-- The topic that `serve` is about to subscribe to. -/
def ServePc.subscribes : ServePc → Option Bytes
  | .handle frame => subscribeTopic frame
  | .subscribeLock topic | .isDraining (.subscribe topic) | .isDrainingConn (.subscribe topic) _
  | .subscribeCall topic | .subscribeWait topic _ => some topic
  | _ => none

theorem ServePc.Reports.subscribes (h : pc.Reports) : pc.subscribes = none := by
  cases h <;> rfl

theorem subscribes_subscribeNext {frame : Frame} {topic : Bytes}
    (htype : frame.type = typeSubscribe)
    (h : (subscribeNext frame.payload).subscribes = some topic) :
    subscribeTopic frame = some topic := by
  rcases subscribeNext_cases frame.payload with hrep | ⟨message, hdec, hpc⟩
  · rw [hrep.subscribes] at h
    cases h
  · rw [hpc] at h
    cases h
    simp [subscribeTopic, htype, hdec, Except.toOption]

section Move

variable {a : ConnAction} {out : Out} {topic : Bytes}

/-- The topic that `serve` is about to subscribe to is that of the frame in its hand. -/
theorem ServeMove.subscribes (h : ServeMove s c a pc pc' bus obs)
    (hpc' : pc'.subscribes = some topic) :
    pc.subscribes = some topic := by
  cases h with
  | subscribe htype => exact subscribes_subscribeNext htype hpc'
  | subscribeLock | subscribeAllowed | subscribeCall => exact hpc'
  | @isDraining request =>
    cases request with
    | subscribe => exact hpc'
    | publish => cases hpc'
  | @publishAllowed payload =>
    rcases publishNext_cases payload with hrep | ⟨message, -, hpc⟩
    · rw [hrep.subscribes] at hpc'
      cases hpc'
    · rw [hpc] at hpc'
      cases hpc'
  | @publishReturn message _ r =>
    rcases publishReply_cases (publishAck message r) with hrep | ⟨payload, -, hpc⟩
    · rw [hrep.subscribes] at hpc'
      cases hpc'
    · rw [hpc] at hpc'
      cases hpc'
  | ackInvalid | unsupported | publishDraining | subscribeError | sendReport =>
    rw [(reports_sendError _ _).subscribes] at hpc'
    cases hpc'
  | send | sendIgnore =>
    rw [(AfterSend.reports_pc _).subscribes] at hpc'
    cases hpc'
  | _ => cases hpc'

/-- The topic that `serve` is about to subscribe to is that of a frame it has just read, or
    has been in hand before. -/
theorem ConnMove.subscribes (h : ConnMove s c a out)
    (hout : out.conn.serve.subscribes = some topic) :
    c.serve.subscribes = some topic ∨
      topic ∈ subscribedTopics (out.obs.filterMap ConnObs.read?) := by
  cases h with
  | serve hpc hm =>
    subst hpc
    exact .inl (hm.subscribes hout)
  | connect =>
    rw [(reports_connectNext _).subscribes] at hout
    cases hout
  | @read frame => exact .inr (List.mem_filterMap.mpr ⟨frame, .head _, hout⟩)
  | store | replaced | spawn | acknowledge | unsubscribe | abort => cases hout
  | _ => exact .inl hout

/-- The message with which `serve` is in `PublishWithResult`. -/
def ServePc.inBroker : ServePc → List PublishMessage
  | .publishWait message _ => [message]
  | _ => []

theorem ServePc.inBroker_of_plain (h : pc.plain = true) : pc.inBroker = [] := by
  cases pc <;> first | rfl | exact nomatch h

/-- `serve` calls the broker with the message in its hand. -/
theorem ServeMove.inBroker (h : ServeMove s c a pc pc' bus obs) (hpc' : message ∈ pc'.inBroker) :
    message ∈ pc.publishing := by
  cases h with
  | publishCall => exact hpc'
  | subscribe | ackInvalid | unsupported | publishDraining | publishAllowed | subscribeError
  | publishReturn | send | sendReport | sendIgnore =>
    rw [ServePc.inBroker_of_plain (by simp)] at hpc'
    cases hpc'
  | _ => cases hpc'

theorem ConnMove.inBroker (h : ConnMove s c a out) (hout : message ∈ out.conn.serve.inBroker) :
    message ∈ c.serve.inBroker ∨ message ∈ c.serve.publishing := by
  cases h with
  | serve hpc hm =>
    subst hpc
    exact .inr (hm.inBroker hout)
  | connect =>
    rw [ServePc.inBroker_of_plain (plain_connectNext _)] at hout
    cases hout
  | read | store | replaced | spawn | acknowledge | unsubscribe | abort => cases hout
  | _ => exact .inl hout

end Move

/-- The topics of a connection that has reported `L` are those of the SUBSCRIBE frames that
    `serve` has read. -/
structure Connection.TopicsInv (L : List ConnObs) (w : Bus) (c : Connection) : Prop where
  request : ∀ topic, c.serve.subscribes = some topic →
    topic ∈ subscribedTopics (L.filterMap ConnObs.read?)
  owned : ∀ sub, c.Owns w sub → ∃ subscription, w.subs[sub]? = some subscription ∧
    subscription.topic ∈ subscribedTopics (L.filterMap ConnObs.read?)

/-- The topics of a connection come from SUBSCRIBE frames, in every run. -/
theorem topics_inv {config : Config} {G : Server → ServerAction → Prop} {log : List ServerObs}
    (h : (Server.lts config).Reach G log s) {k : ConnId} (hc : s.connections k = some c) :
    c.TopicsInv (connLog k log) s.bus := by
  refine Server.conn_induct h hc (I := fun L w c => c.TopicsInv L w) ?_ ?_
  · exact fun w => ⟨nofun, fun sub ho => absurd ho (Connection.not_owns_new _ _)⟩
  intro log s a s' os c c' obs b _ hr' _ hc' _ hb hch ih
  have hrequest : ∀ topic, c'.serve.subscribes = some topic →
      topic ∈ subscribedTopics ((connLog k log ++ obs).filterMap ConnObs.read?) := by
    intro topic htopic
    rw [List.filterMap_append, subscribedTopics_append]
    cases hch with
    | move hm =>
      rcases hm.subscribes htopic with hold | hnew
      · exact List.mem_append_left _ (ih.request topic hold)
      · exact List.mem_append_right _ hnew
    | _ => exact List.mem_append_left _ (ih.request topic htopic)
  refine ⟨hrequest, ?_⟩
  -- what the connection owned before the step
  have hkept : ∀ sub, c.Owns s.bus sub → ∃ subscription, s'.bus.subs[sub]? = some subscription ∧
      subscription.topic ∈ subscribedTopics ((connLog k log ++ obs).filterMap ConnObs.read?) := by
    intro sub ho
    obtain ⟨subscription, hs, htopic⟩ := ih.owned sub ho
    obtain ⟨subscription', hs', hlater⟩ := hb.later hs
    refine ⟨subscription', hs', ?_⟩
    rw [hlater.topic, List.filterMap_append, subscribedTopics_append]
    exact List.mem_append_left _ htopic
  intro sub ho
  rcases ho with (hheld | ⟨call, hcall, hret⟩) | hne
  · apply hkept
    cases hch with
    | move hm => exact .inl (hm.held hheld)
    | _ => exact .inl (.inl hheld)
  · -- `broker.Subscribe` has returned it for the topic in hand
    obtain ⟨topic, hserve⟩ : ∃ topic, c'.serve = .subscribeWait topic call := by
      unfold ServePc.awaited at hcall
      split at hcall
      · rename_i topic _ hserve
        cases hcall
        exact ⟨topic, hserve⟩
      · cases hcall
    have hruns := (calls_inv hr' hc').serve call (.subscribe topic) (by rw [hserve]; rfl)
    obtain ⟨subscription, hs, htopic⟩ := hruns.subscribed hret
    refine ⟨subscription, hs, ?_⟩
    rw [htopic]
    exact hrequest topic (by rw [hserve]; rfl)
  · exact hkept sub (hch.owns_of_delivery hne)

/-! ## What is ahead of an ACK -/

/-- The PUBLISH messages of the client that the broker has not finished with. -/
def Connection.unanswered (c : Connection) : List PublishMessage :=
  c.serve.publishing ++ c.serve.inBroker ++ c.input.filterMap publishOf

/-- The frame that the peer of connection `k` sends. -/
def ServerAction.sent (k : ConnId) : ServerAction → Option Frame
  | .peerSend k' frame => if k' = k then some frame else none
  | _ => none

/-- The client of connection `k` sends an ACK only if none of its unanswered PUBLISH messages
    is for a topic that it has sent a SUBSCRIBE frame for. -/
def AcksBetweenPublishes (k : ConnId) (s : Server × List ServerObs) (a : ServerAction) : Prop :=
  ∀ frame ∈ a.sent k, frame.type = typeAck → ∀ c ∈ s.1.connections k, ∀ message ∈ c.unanswered,
    message.topic ∉ subscribedTopics ((connLog k s.2).filterMap ConnObs.read? ++ c.input)

instance (k : ConnId) (s : Server × List ServerObs) (a : ServerAction) :
    Decidable (AcksBetweenPublishes k s a) :=
  inferInstanceAs (Decidable (∀ frame ∈ a.sent k, _))

/-- No PUBLISH message ahead of an ACK is for a topic of a SUBSCRIBE frame ahead of it. -/
def Connection.PipelineInv (L : List ConnObs) (c : Connection) : Prop :=
  ∀ before ack after, c.input = before ++ ack :: after → ack.type = typeAck →
    ∀ message ∈ c.serve.publishing ++ c.serve.inBroker ++ before.filterMap publishOf,
      message.topic ∉ subscribedTopics (L.filterMap ConnObs.read? ++ before)

/-- A move of the connection takes frames from the head of the input and messages from
    those at hand. -/
theorem ConnMove.pipeline {L : List ConnObs} {a : ConnAction} {out : Out} (h : ConnMove s c a out)
    (hinv : c.PipelineInv L) :
    out.conn.PipelineInv (L ++ out.obs) := by
  intro before ack after hin htype message hmem
  have hinput : c.input = (out.obs.filterMap ConnObs.read? ++ before) ++ ack :: after := by
    rw [h.input, hin, List.append_assoc]
  have hahead := hinv _ ack after hinput htype message
  rw [List.filterMap_append, List.append_assoc]
  apply hahead
  -- the message was at hand, or its frame has just been read
  have hread : message ∈ out.conn.serve.publishing →
      message ∈ c.serve.publishing ++ (out.obs.filterMap ConnObs.read?).filterMap publishOf := by
    intro hpub
    rw [← publishReads_eq]
    exact h.publishes.subset (List.mem_append_right _ hpub)
  rw [List.filterMap_append]
  simp only [List.mem_append] at hmem hread ⊢
  rcases hmem with (hpub | hbroker) | hbefore
  · rcases hread hpub with hhand | hnew
    · exact .inl (.inl hhand)
    · exact .inr (.inl hnew)
  · rcases h.inBroker hbroker with hold | hhand
    · exact .inl (.inr hold)
    · exact .inl (.inl hhand)
  · exact .inr (.inr hbefore)

section Run

variable {config : Config} {k : ConnId} {log : List ServerObs} {s : Server × List ServerObs}

/-- No PUBLISH is ahead of an ACK that could come to wait for it, where the peer keeps to the
    rule. -/
theorem pipeline_inv (h : (Server.lts config).history.Reach (AcksBetweenPublishes k) log s)
    (hc : s.1.connections k = some c) : c.PipelineInv (connLog k log) := by
  refine Server.conn_induct_history h hc (I := fun L _ c => c.PipelineInv L) ?_ ?_
  · intro w before ack after hin
    simp [newConnection] at hin
  intro log s a s' os c c' obs b hr _ hc _ hg _ hch ih
  cases hch with
  | move hm => exact hm.pipeline ih
  | @peerSend frame =>
    rw [List.append_nil]
    intro before ack after hin htype message hmem
    rcases List.eq_nil_or_concat after with rfl | ⟨after', last, rfl⟩
    · -- the ACK is the frame that is sent
      obtain ⟨rfl, hlast⟩ := List.append_inj' hin rfl
      obtain rfl := List.singleton_inj.mp hlast
      exact hg frame (by simp [ServerAction.sent]) htype c hc message hmem
    · have hin' : c.input ++ [frame] = (before ++ ack :: after') ++ [last] := by simpa using hin
      exact ih before ack after' (List.append_inj' hin' rfl).1 htype message hmem
  | _ =>
    rw [List.append_nil]
    exact ih

/-- While `serve` waits in `PublishWithResult` for a queue of its connection, no ACK is in
    the input. -/
theorem no_ack_behind_publish
    (h : (Server.lts config).history.Reach (AcksBetweenPublishes k) log s)
    (hc : s.1.connections k = some c) {call : CallId} {ev : Event} {sub : SubPtr}
    {todo : List SubPtr} (hserve : c.serve = .publishWait message call)
    (hcall : s.1.bus.calls call = some (.enqueueSelect ev sub todo))
    (hown : c.deliveries sub ≠ none) : ∀ frame ∈ c.input, frame.type ≠ typeAck := by
  intro frame hmem htype
  have hreach : (Server.lts config).Reach Lts.Always log s.1 := h.of_history fun _ _ _ => trivial
  obtain ⟨before, after, hin⟩ := List.append_of_mem hmem
  have hnot := pipeline_inv h hc before frame after hin htype message
    (by simp [hserve, ServePc.inBroker])
  -- the queue is one of the topic of the message
  have hev : ev = message.event := by
    obtain ⟨pc, hpc, hstage⟩ :=
      (calls_inv hreach hc).serve call (.publishWithResult .background message.event)
        (by rw [hserve]; rfl)
    rw [hcall, Option.some.injEq] at hpc
    subst hpc
    cases hstage with
    | publish hev => exact Option.some.inj hev
  obtain ⟨subscription, hs, htopic⟩ :=
    (log_inv (Server.reach_bus hreach)).target call _ ev sub hcall rfl (by simp [Pc.targets])
  -- and so the client has subscribed to this topic
  obtain ⟨subscription', hs', hsubscribed⟩ := (topics_inv hreach hc).owned sub (.inr hown)
  rw [hs, Option.some.injEq] at hs'
  subst hs'
  rw [htopic, hev] at hsubscribed
  apply hnot
  rw [subscribedTopics_append]
  exact List.mem_append_left _ hsubscribed

/-- No publish/ACK wait cycle, if the client acknowledges events only while none of its PUBLISH
    messages to a topic it has subscribed to is unanswered. -/
theorem no_wait_cycle (h : (Server.lts config).history.Reach (AcksBetweenPublishes k) log s) :
    ¬s.1.WaitCycle k := by
  rintro ⟨c, message, call, sub, hc, hserve, ⟨⟨ev, todo, hcall⟩, -⟩, hunread⟩
  obtain ⟨x, payload, ch, attempt, acknowledged, hpc, -, -, frame, hmem, htype, -⟩ := hunread
  have hown : c.deliveries sub ≠ none := by
    rw [hpc]
    exact Option.some_ne_none _
  exact no_ack_behind_publish h hc hserve hcall hown frame hmem htype

end Run

/-! ## Runs -/

/-- A PUBLISH frame with this ID for this topic. -/
private def publishFrame (id topic : UInt8) : Frame :=
  ⟨typePublish, [0, 1, id, 0, 0, 0, 1, topic, 0, 0, 0, 0, 0, 0]⟩

/-- `serve` reads a PUBLISH frame and calls the broker. -/
private def handlePublishRun (call : CallId) : List ServerAction :=
  [.conn 0 .serveRead, .conn 0 .serveDispatch, .conn 0 .isDraining, .conn 0 .isDrainingConn,
    .conn 0 (.publishCall call)]

/-- The call is at the `select` for the queue of subscription 0. -/
private def fanOutRun (call : CallId) : List ServerAction :=
  [.bus (.publishEnter call [0] []), .bus (.enqueueEnter call), .bus (.enqueueCheck call)]

/-- The event enters the queue, the call returns and `serve` answers the client. -/
private def answerRun (call : CallId) : List ServerAction :=
  [.bus (.enqueueSend call), .bus (.enqueueReturn call), .bus (.publishLeave call []),
    .conn 0 .publishReturn, .conn 0 .serveSend]

/-- A client subscribed to `t` publishes an event to `t`, which is written to it. -/
private def publishedRun : List ServerAction :=
  subscribeRun 0 0 ++ [ServerAction.peerSend 0 (publishFrame 1 116)] ++ handlePublishRun 1 ++
    fanOutRun 1 ++ answerRun 1 ++
    [ServerAction.conn 0 (.deliverReceive 0), .conn 0 (.deliverRegister 0),
      .conn 0 (.deliverSend 0)]

/-- The client publishes to another topic `u` and then acknowledges the event. -/
theorem no_wait_cycle_other_topic :
    ∃ log s c message, (Server.lts ⟨1, 0, 0, .block⟩).history.Reach (AcksBetweenPublishes 0) log s ∧
      s.1.connections 0 = some c ∧ c.serve = .publishWait message 2 ∧
      c.input = [⟨typeAck, [0, 1, 1, 4, 0, 0]⟩] ∧ ¬s.1.WaitCycle 0 := by
  obtain ⟨log, s, hr, c, hc, hserve, hin⟩ :=
    Lts.reach_of_runWhere (M := (Server.lts ⟨1, 0, 0, .block⟩).history)
      (G := AcksBetweenPublishes 0) (Lts.history_init rfl)
      (publishedRun ++ [ServerAction.peerSend 0 (publishFrame 2 117),
        .peerSend 0 ⟨typeAck, [0, 1, 1, 4, 0, 0]⟩] ++ handlePublishRun 2)
      (Q := fun r => ∃ c ∈ r.1.1.connections 0,
        c.serve = .publishWait ⟨[2], [], [117], [], []⟩ 2 ∧
        c.input = [⟨typeAck, [0, 1, 1, 4, 0, 0]⟩]) (by decide)
  exact ⟨log, s, c, _, hr, hc, hserve, hin, no_wait_cycle hr⟩

set_option maxRecDepth 2048 in
/-- The client publishes twice more to `t` and then acknowledges the first event. The second
    event fills the queue, the third waits for room, and the ACK is behind it. -/
theorem wait_cycle_pipelined :
    ∃ log s, (Server.lts ⟨1, 0, 0, .block⟩).Reach Lts.Always log s ∧ s.WaitCycle 0 := by
  obtain ⟨log, s, hr, c, hc, subscription, hs, hserve, hcall, hopen, hfull, hpc, acknowledged, hch,
      hempty, hin⟩ :=
    Lts.reach_of_runWhere (M := Server.lts ⟨1, 0, 0, .block⟩) (G := Lts.Always) rfl
      (publishedRun ++ [ServerAction.peerSend 0 (publishFrame 2 116),
        .peerSend 0 (publishFrame 3 116),
        .peerSend 0 ⟨typeAck, [0, 1, 1, 4, 0, 0]⟩] ++ handlePublishRun 2 ++ fanOutRun 2 ++
        answerRun 2 ++ handlePublishRun 3 ++ fanOutRun 3)
      (Q := fun r => ∃ c ∈ r.1.connections 0, ∃ subscription ∈ r.1.bus.subs[0]?,
        c.serve = .publishWait ⟨[3], [], [116], [], []⟩ 3 ∧
        r.1.bus.calls 3 = some (.enqueueSelect ⟨[3], [], [116], [], []⟩ 0 []) ∧
        subscription.done = false ∧
        subscription.events.cap ≤ subscription.events.buf.length ∧
        c.deliveries 0 = some (.waiting ⟨1, ⟨[1], [], [116], [], []⟩⟩
          [0, 1, 1, 0, 0, 0, 1, 116, 0, 0, 0, 0, 0, 0] 0 1) ∧
        ∃ acknowledged ∈ c.acks[0]?, acknowledged.buf = [] ∧
          (⟨typeAck, [0, 1, 1, 4, 0, 0]⟩ : Frame) ∈ c.input) (by decide)
  have hblocked : s.bus.Blocked 3 0 := ⟨⟨_, _, hcall⟩, subscription, hs, hopen, hfull⟩
  have hunread : c.AckUnread 0 :=
    ⟨_, _, _, _, acknowledged, hpc, hch, hempty, _, hin, rfl, ⟨[1], ackDelivered, []⟩, rfl, rfl⟩
  exact ⟨log, s, hr, c, _, 3, 0, hc, hserve, hblocked, hunread⟩

end EventBus
