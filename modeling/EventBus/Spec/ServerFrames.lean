import EventBus.Spec.MessagesCorrect
import EventBus.Spec.ServerDelivery

/-!
# The frames of a connection

What the goroutines of a connection write: `serve` answers, the delivery goroutines write
the events they received, `gracefulClose` writes the SHUTDOWN frame. An event of a topic is
written by the delivery goroutine of a subscription to the topic, and a connection that
subscribes once to it has only one.

## Key results

- `written_inv`: every frame written is one that its reader decodes
- `topic_frames`: the events of a topic on the wire are those of its one subscription
-/

namespace EventBus

variable {pc : ServePc} {writer : Writer} {frame : Frame} {config : Config}
  {G : Server → ServerAction → Prop} {log : List ServerObs} {s : Server} {k : ConnId}
  {c : Connection} {L : List ConnObs} {w : Bus} {sub p : SubPtr} {topic : Bytes}
  {subscription : Subscription} {x : Copy} {ch : AckChan}

/-- The frames that `serve` writes. -/
inductive ServeFrame : Frame → Prop
  | pong : ServeFrame ⟨typePong, []⟩
  | error {text payload : Bytes} : encodeError ⟨text⟩ = .ok payload →
      ServeFrame ⟨typeError, payload⟩
  | ack {ack : AckMessage} {payload : Bytes} : encodeAck ack = .ok payload →
      ServeFrame ⟨typeAck, payload⟩

/-- If `serve` is about to write a frame, it is one of these. -/
def ServePc.Sends (pc : ServePc) : Prop := ∀ frame after, pc = .send frame after → ServeFrame frame

theorem ServePc.Reports.sends (h : pc.Reports) : pc.Sends := by
  cases h with
  | error henc =>
    intro frame after hpc
    obtain ⟨rfl, -⟩ := ServePc.send.inj hpc
    exact .error henc
  | _ => exact nofun

theorem sends_subscribeNext (payload : Bytes) : (subscribeNext payload).Sends := by
  rcases subscribeNext_cases payload with h | ⟨_, -, h⟩
  · exact h.sends
  · rw [h]
    exact nofun

theorem sends_publishNext (payload : Bytes) : (publishNext payload).Sends := by
  rcases publishNext_cases payload with h | ⟨_, -, h⟩
  · exact h.sends
  · rw [h]
    exact nofun

theorem sends_publishReply (ack : AckMessage) : (publishReply ack).Sends := by
  rcases publishReply_cases ack with h | ⟨_, henc, h⟩
  · exact h.sends
  · intro frame after hpc
    rw [h] at hpc
    obtain ⟨rfl, -⟩ := ServePc.send.inj hpc
    exact .ack henc

section Move

variable {a : ConnAction} {out : Out}

/-- Wherever `serve` goes, the frame it is about to write is one of these. -/
theorem ServeMove.sends {pc' : ServePc} {bus : Option Action} {obs : List ConnObs}
    (h : ServeMove s c a pc pc' bus obs) : pc'.Sends := by
  cases h with
  | subscribe => exact sends_subscribeNext _
  | publishAllowed => exact sends_publishNext _
  | publishReturn => exact sends_publishReply _
  | ackInvalid | unsupported | publishDraining | subscribeError | sendReport =>
    exact (reports_sendError _ _).sends
  | send | sendIgnore => exact (AfterSend.reports_pc _).sends
  | ping =>
    intro frame after hpc
    obtain ⟨rfl, -⟩ := ServePc.send.inj hpc
    exact .pong
  | _ => exact nofun

/-- A step of the connection keeps this. -/
theorem ConnMove.sends (h : ConnMove s c a out) (hc : c.serve.Sends) : out.conn.serve.Sends := by
  cases h with
  | serve _ hm => exact hm.sends
  | connect => exact (reports_connectNext _).sends
  | read | store | replaced | spawn | acknowledge | unsubscribe | abort => exact nofun
  | _ => exact hc

/-- What `serve` and `gracefulClose` write. -/
theorem ConnMove.wrote (h : ConnMove s c a out) (ho : .wrote writer frame ∈ out.obs) :
    (writer = .serve ∧ ∃ after, c.serve = .send frame after) ∨
    (writer = .graceful ∧ ∃ payload, encodeShutdown ⟨s.redirect⟩ = .ok payload ∧
      frame = ⟨typeShutdown, payload⟩ ∧ c.graceful = .shutdown) ∨
    ∃ sub ch, writer = .delivery sub ch := by
  cases h with
  | serve hpc hm =>
    cases hm with
    | send =>
      obtain ⟨rfl, rfl⟩ := ConnObs.wrote.inj (List.mem_singleton.mp ho)
      exact .inl ⟨rfl, _, hpc⟩
    | _ => simp at ho
  | graceful hpc hm =>
    cases hm with
    | send henc =>
      obtain ⟨rfl, rfl⟩ := ConnObs.wrote.inj (List.mem_singleton.mp ho)
      exact .inr (.inl ⟨rfl, _, henc, rfl, hpc⟩)
    | _ => simp at ho
  | deliver _ hm =>
    cases hm with
    | send =>
      obtain ⟨rfl, rfl⟩ := ConnObs.wrote.inj (List.mem_singleton.mp ho)
      exact .inr (.inr ⟨_, _, rfl⟩)
    | _ => simp at ho
  | _ => simp at ho

end Move

/-- `serve` and `gracefulClose` write frames of these types. -/
structure WrittenInv (L : List ConnObs) (c : Connection) : Prop where
  sends : c.serve.Sends
  serve : ∀ frame, .wrote .serve frame ∈ L → ServeFrame frame
  graceful : ∀ frame, .wrote .graceful frame ∈ L →
    ∃ redirect payload, encodeShutdown ⟨redirect⟩ = .ok payload ∧ frame = ⟨typeShutdown, payload⟩

/-- `serve` and `gracefulClose` write frames of their types in every run. -/
theorem written_inv (h : (Server.lts config).Reach G log s) (hc : s.connections k = some c) :
    WrittenInv (connLog k log) c := by
  refine Server.conn_induct h hc (I := fun L _ c => WrittenInv L c) ?_ ?_
  · exact fun _ => ⟨nofun, nofun, nofun⟩
  · intro log s a s' os c c' obs b _ _ _ _ _ _ hch hbefore
    cases hch with
    | move hm =>
      refine ⟨hm.sends hbefore.sends, fun frame ho => ?_, fun frame ho => ?_⟩
      · rcases List.mem_append.mp ho with hold | hnew
        · exact hbefore.serve frame hold
        · rcases hm.wrote hnew with ⟨-, after, hpc⟩ | ⟨hw, -⟩ | ⟨_, _, hw⟩
          · exact hbefore.sends frame after hpc
          · cases hw
          · cases hw
      · rcases List.mem_append.mp ho with hold | hnew
        · exact hbefore.graceful frame hold
        · rcases hm.wrote hnew with ⟨hw, -⟩ | ⟨-, payload, henc, heq, -⟩ | ⟨_, _, hw⟩
          · cases hw
          · exact ⟨_, payload, henc, heq⟩
          · cases hw
    | _ => rw [List.append_nil]; exact ⟨hbefore.sends, hbefore.serve, hbefore.graceful⟩

/-! ## Subscriptions by topic -/

/-- The subscription was returned by a call that the connection made for its topic. -/
def FromCall (L : List ConnObs) (w : Bus) (sub : SubPtr) : Prop :=
  ∃ call subscription, w.subs[sub]? = some subscription ∧
    .subscribing subscription.topic call ∈ L ∧ w.calls call = some (.returned (.subscribed sub))

/-- Where a subscription comes from does not change. -/
theorem FromCall.step {w' : Bus} {b : Option Action} {os : List Obs} (h : FromCall L w sub)
    (hb : BusStep w b w' os) (obs : List ConnObs) :
    FromCall (L ++ obs) w' sub := by
  obtain ⟨call, subscription, hs, ho, hr⟩ := h
  obtain ⟨subscription', hs', hlater⟩ := hb.later hs
  refine ⟨call, subscription', hs', ?_, hb.returned hr⟩
  rw [hlater.topic]
  exact List.mem_append_left _ ho

/-- Where the subscriptions of a connection come from. -/
structure SourceInv (L : List ConnObs) (w : Bus) (c : Connection) : Prop where
  wait : ∀ topic call, c.serve = .subscribeWait topic call → .subscribing topic call ∈ L
  held : ∀ sub, c.serve.held = some sub → FromCall L w sub
  delivered : ∀ sub, c.deliveries sub ≠ none → FromCall L w sub

/-- `serve` waits for a call of `broker.Subscribe` that it has made. -/
theorem ConnMove.subscribing {a : ConnAction} {out : Out} {call : CallId} (h : ConnMove s c a out)
    (hpc : out.conn.serve = .subscribeWait topic call) :
    c.serve = .subscribeWait topic call ∨ .subscribing topic call ∈ out.obs := by
  have hplain : ∀ {pc : ServePc}, pc.plain = true → pc ≠ .subscribeWait topic call := by
    rintro _ hp rfl
    cases hp
  cases h with
  | serve _ hm =>
    cases hm with
    | subscribeCall =>
      obtain ⟨rfl, rfl⟩ := ServePc.subscribeWait.inj hpc
      exact .inr (.head _)
    | subscribe | ackInvalid | unsupported | publishDraining | publishAllowed | subscribeError
    | publishReturn | send | sendReport | sendIgnore => exact absurd hpc (hplain (by simp))
    | _ => cases hpc
  | connect => exact absurd hpc (hplain (by simp))
  | read | store | replaced | spawn | acknowledge | unsubscribe | abort => cases hpc
  | _ => exact .inl hpc

/-- A call that has returned a subscription to `serve`. -/
theorem SourceInv.holds (h : SourceInv L w c) (hcalls : c.CallsInv w) (hh : c.Holds w sub) :
    FromCall L w sub := by
  rcases hh with hheld | ⟨call, hcall, hr⟩
  · exact h.held sub hheld
  · unfold ServePc.awaited at hcall
    split at hcall
    · rename_i topic call' hpc
      obtain rfl := Option.some.inj hcall
      have hruns := hcalls.serve call' (.subscribe topic) (by rw [hpc]; rfl)
      obtain ⟨subscription, hs, htopic⟩ := hruns.subscribed hr
      exact ⟨call', subscription, hs, htopic ▸ h.wait topic call' hpc, hr⟩
    · cases hcall

/-- Where the subscriptions of a connection come from, in every run. -/
theorem source_inv (h : (Server.lts config).Reach G log s) (hc : s.connections k = some c) :
    SourceInv (connLog k log) s.bus c := by
  refine Server.conn_induct h hc (I := SourceInv) ?_ ?_
  · exact fun _ => ⟨nofun, nofun, fun sub hne => absurd rfl hne⟩
  · intro log s a s' os c c' obs b hr _ hc _ _ hb hch hbefore
    cases hch with
    | move hm hbus =>
      have hcalls := calls_inv hr hc
      constructor
      · intro topic call hpc
        rcases hm.subscribing hpc with hold | hnew
        · exact List.mem_append_left _ (hbefore.wait topic call hold)
        · exact List.mem_append_right _ hnew
      · exact fun sub hheld => (hbefore.holds hcalls (hm.held hheld)).step hb _
      · intro sub hne
        rcases hm.deliveries hne with hold | ⟨hspawn, -⟩
        · exact (hbefore.delivered sub hold).step hb _
        · exact (hbefore.held sub (by rw [hspawn]; rfl)).step hb _
    | _ =>
      exact ⟨fun topic call hpc => List.mem_append_left _ (hbefore.wait topic call hpc),
        fun sub hheld => (hbefore.held sub hheld).step hb _,
        fun sub hne => (hbefore.delivered sub hne).step hb _⟩

/-- The calls of `broker.Subscribe` that the connection made for a topic. -/
def subscribeCalls (topic : Bytes) (L : List ConnObs) : List CallId :=
  L.filterMap fun
    | .subscribing topic' call => if topic' = topic then some call else none
    | _ => none

/-- A connection that subscribes once to a topic has one subscription to it. -/
theorem FromCall.unique {sub' : SubPtr} {subscription' : Subscription} (h : FromCall L w sub)
    (h' : FromCall L w sub') (hs : w.subs[sub]? = some subscription)
    (hs' : w.subs[sub']? = some subscription') (htopic : subscription'.topic = subscription.topic)
    (honce : (subscribeCalls subscription.topic L).length ≤ 1) : sub' = sub := by
  have hmem : ∀ {p : SubPtr} {q : Subscription}, FromCall L w p → w.subs[p]? = some q →
      q.topic = subscription.topic → ∃ call ∈ subscribeCalls subscription.topic L,
        w.calls call = some (.returned (.subscribed p)) := by
    intro p q hfrom hq heq
    obtain ⟨call, q', hq', ho, hr⟩ := hfrom
    rw [hq, Option.some.injEq] at hq'
    subst hq'
    exact ⟨call, List.mem_filterMap.mpr ⟨_, ho, if_pos heq⟩, hr⟩
  obtain ⟨call, hcall, hr⟩ := hmem h hs rfl
  obtain ⟨call', hcall', hr'⟩ := hmem h' hs' htopic
  have hone : ∀ {l : List CallId} {x y : CallId}, l.length ≤ 1 → x ∈ l → y ∈ l → x = y := by
    intro l x y hl hx hy
    match l, hl with
    | [z], _ => rw [List.mem_singleton.mp hx, List.mem_singleton.mp hy]
  rw [hone honce hcall hcall', hr'] at hr
  simpa using hr

/-! ## Events on the wire -/

/-- The event of a topic that a frame carries. -/
def eventOf (topic : Bytes) (frame : Frame) : Option Event :=
  if frame.type = typeEvent then
    match decodeEvent frame.payload with
    | .ok event => if event.topic = topic then some event else none
    | .error _ => none
  else none

theorem eventOf_encode {payload : Bytes} {event : Event} (henc : encodeEvent event = .ok payload) :
    eventOf topic ⟨typeEvent, payload⟩ = if event.topic = topic then some event else none := by
  simp [eventOf, (decodeEvent_ok_iff payload event).mpr henc]

/-- `serve` writes no EVENT frame. -/
theorem ServeFrame.not_event (h : ServeFrame frame) : frame.type ≠ typeEvent := by
  cases h with
  | pong => decide
  | error => exact (by decide : typeError ≠ typeEvent)
  | ack => exact (by decide : typeAck ≠ typeEvent)

/-- What was received from a queue was put in it. -/
theorem received_put {G : Bus → Action → Prop} {log : List Obs}
    (h : (Bus.lts config).Reach G log w) (hx : x ∈ receivedFrom log p) :
    ∃ route, .put p x route ∈ log := by
  rw [← mem_given, given_eq h p]
  exact List.mem_append_left _ ((receivedFrom_sublist log p).subset hx)

/-- An event received from a subscription is one of its topic. -/
theorem received_topic {G : Bus → Action → Prop} {log : List Obs}
    (h : (Bus.lts config).Reach G log w) (hx : x ∈ receivedFrom log p) :
    ∃ sub, w.subs[p]? = some sub ∧ sub.topic = x.event.topic := by
  obtain ⟨route, hput⟩ := received_put h hx
  exact ((log_inv h).put p x route hput).2

/-- A connection calls `deliver` in its delivery goroutines only. -/
theorem registered_delivers (h : (Server.lts config).Reach G log s)
    (hc : s.connections k = some c) (ho : .registered sub ch x ∈ connLog k log) :
    c.deliveries sub ≠ none := by
  refine Server.conn_induct h hc
    (I := fun L _ c => .registered sub ch x ∈ L → c.deliveries sub ≠ none) (fun _ => nofun) ?_ ho
  intro log s a s' os c c' obs b _ _ _ _ _ _ hch hbefore ho
  rw [List.mem_append] at ho
  cases hch with
  | move hm =>
    rcases ho with hold | hnew
    · exact (hm.deliveryStep _).known (hbefore hold)
    · cases hm with
      | register =>
        obtain ⟨rfl, -, -⟩ := ConnObs.registered.inj (List.mem_singleton.mp hnew)
        rw [Connection.setDelivery_self]
        exact Option.some_ne_none _
      | serve _ hm => exact absurd hnew (hm.not_registered sub ch x)
      | deliver _ hm => cases hm <;> simp at hnew
      | graceful _ hm => cases hm <;> simp at hnew
      | _ => simp at hnew
  | _ => exact hbefore (ho.resolve_right (List.not_mem_nil))

/-- A delivery goroutine writes events that it has received. -/
theorem delivery_frame (h : (Server.lts config).Reach G log s) (hc : s.connections k = some c)
    (ho : .wrote (.delivery sub ch) frame ∈ connLog k log) :
    c.deliveries sub ≠ none ∧ frame.type = typeEvent ∧ ∃ x ∈ receivedFrom (busLog log) sub,
      .registered sub ch x ∈ connLog k log ∧ encodeEvent x.event = .ok frame.payload := by
  obtain ⟨rows, cur, rest, hist⟩ := history_inv h sub hc
  have hmem := mem_deliveryFrames ho
  rw [hist.frames, List.mem_flatMap] at hmem
  obtain ⟨d, hd, hf⟩ := hmem
  have hvalid := hist.valid d hd
  obtain ⟨rfl, rfl⟩ := Prod.mk.inj (List.eq_of_mem_replicate hf)
  refine ⟨registered_delivers h hc hvalid.registered, rfl, d.x, ?_, hvalid.registered,
    hvalid.encoded⟩
  rw [hist.received]
  exact List.mem_append_left _ (List.mem_map_of_mem hd)

/-- Nobody but a delivery goroutine writes an EVENT frame. -/
theorem event_writer (h : (Server.lts config).Reach G log s) (hc : s.connections k = some c)
    (ho : .wrote writer frame ∈ connLog k log) (htype : frame.type = typeEvent) :
    ∃ sub ch, writer = .delivery sub ch := by
  cases writer with
  | serve => exact absurd htype ((written_inv h hc).serve frame ho).not_event
  | graceful =>
    obtain ⟨_, _, -, rfl⟩ := (written_inv h hc).graceful frame ho
    cases htype
  | delivery sub ch => exact ⟨sub, ch, rfl⟩

/-- The events of a topic on the wire are those of the one subscription to it. -/
theorem topic_frames (h : (Server.lts config).Reach G log s) (hc : s.connections k = some c)
    (hd : c.deliveries sub ≠ none) (hs : s.bus.subs[sub]? = some subscription)
    (honce : (subscribeCalls subscription.topic (connLog k log)).length ≤ 1) :
    ((connLog k log).filterMap ConnObs.wrote?).filterMap (eventOf subscription.topic) =
      (deliveryFrames sub (connLog k log)).filterMap fun p => eventOf subscription.topic p.2 := by
  have hwritten := written_inv h hc
  have hsource := source_inv h hc
  unfold deliveryFrames
  rw [List.filterMap_filterMap, List.filterMap_filterMap]
  apply List.filterMap_congr
  intro o ho
  cases o with
  | wrote writer frame =>
    cases writer with
    | serve => simp [ConnObs.wrote?, eventOf, (hwritten.serve frame ho).not_event]
    | graceful =>
      obtain ⟨redirect, payload, -, rfl⟩ := hwritten.graceful frame ho
      rfl
    | delivery sub' ch =>
      by_cases hsub : sub' = sub
      · simp [ConnObs.wrote?, hsub]
      · -- the subscription of another delivery goroutine has another topic
        obtain ⟨hd', htype, x, hx, -, henc⟩ := delivery_frame h hc ho
        obtain ⟨subscription', hs', htopic'⟩ := received_topic (Server.reach_bus h) hx
        have hne : x.event.topic ≠ subscription.topic := by
          intro heq
          exact hsub (FromCall.unique (hsource.delivered sub hd) (hsource.delivered sub' hd') hs hs'
            (htopic'.trans heq) honce)
        obtain ⟨type, payload⟩ := frame
        obtain rfl : type = typeEvent := htype
        simp [ConnObs.wrote?, hsub, eventOf_encode henc, hne]
  | _ => rfl

end EventBus
