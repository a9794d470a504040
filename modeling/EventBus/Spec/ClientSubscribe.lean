import EventBus.Spec.ClientReader

/-!
# The SUBSCRIBE frames of a client

`Subscribe` writes one SUBSCRIBE frame and returns `nil`, or it returns an error. Nothing else
writes one.

## Key results

- `subscribing_inv`: where a call of `Subscribe` stands
- `subscribe_once`: a topic that is subscribed by one call has one SUBSCRIBE frame at most
-/

namespace EventBus

variable {topic payload : Bytes} {log : List ClientObs} {pc : ClientPc} {c : Client}
  {call : ClientCall} {a : CallAction} {out : CallOut}

/-- The SUBSCRIBE frame for the topic has been written. -/
def SubscribeSent (topic : Bytes) (log : List ClientObs) : Prop :=
  ∃ payload, encodeTopic ⟨topic⟩ = .ok payload ∧ .sent ⟨typeSubscribe, payload⟩ ∈ log

theorem SubscribeSent.append (h : SubscribeSent topic log) (os : List ClientObs) :
    SubscribeSent topic (log ++ os) := by
  obtain ⟨payload, henc, ho⟩ := h
  exact ⟨payload, henc, List.mem_append_left _ ho⟩

/-- Where a call of `Subscribe(topic)` stands. -/
inductive Subscribing (topic : Bytes) (log : List ClientObs) : ClientPc → Prop
  | check {payload : Bytes} : encodeTopic ⟨topic⟩ = .ok payload →
      Subscribing topic log (.check ⟨typeSubscribe, payload⟩ .subscribe)
  | write {payload : Bytes} : encodeTopic ⟨topic⟩ = .ok payload →
      Subscribing topic log (.write ⟨typeSubscribe, payload⟩ .subscribe)
  | failed {err : ClientErr} : Subscribing topic log (.returned (.failed err))
  | ok : SubscribeSent topic log → Subscribing topic log (.returned .ok)

theorem Subscribing.append (h : Subscribing topic log pc) (os : List ClientObs) :
    Subscribing topic (log ++ os) pc := by
  cases h with
  | check henc => exact .check henc
  | write henc => exact .write henc
  | failed => exact .failed
  | ok hsent => exact .ok (hsent.append os)

theorem subscribing_start (topic : Bytes) (log : List ClientObs) :
    Subscribing topic log (ClientOp.subscribe topic).start := by
  show Subscribing topic log (startSend typeSubscribe (encodeTopic ⟨topic⟩) .subscribe)
  unfold startSend
  split
  · exact .failed
  · exact .check ‹_›

theorem CallMove.subscribing (h : CallMove c call a pc out) (hpc : Subscribing topic log pc) :
    Subscribing topic (log ++ (out.obs ++ Client.returnObs call out.pc)) out.pc := by
  cases hpc with
  | check henc =>
    cases h with
    | closed => exact .failed
    | check => exact .write henc
  | write henc =>
    cases h with
    | write => exact .ok ⟨_, henc, List.mem_append_right _ List.mem_cons_self⟩
    | writeFails => exact .failed
  | failed | ok => cases h

/-- A call of `Subscribe` stands where it should. -/
theorem subscribing_inv {G : Client → ClientAction → Prop} (h : Client.lts.Reach G log c)
    (ho : .invoked call (.subscribe topic) ∈ log) :
    ∃ pc, c.calls call = some pc ∧ Subscribing topic log pc :=
  Client.call_stage (subscribing_start topic) (fun _ os _ hst => hst.append os)
    (fun _ _ _ _ _ hm hst => hm.subscribing hst) h ho

/-- The call is about to write a SUBSCRIBE frame. -/
def ClientPc.subscribes : ClientPc → Bool
  | .check frame _ | .write frame _ => frame.type = typeSubscribe
  | _ => false

theorem startSend_subscribes {type : FrameType} {payload : Except MsgErr Bytes}
    {after : AfterClientSend} (h : type ≠ typeSubscribe) :
    (startSend type payload after).subscribes = false := by
  unfold startSend
  split
  · rfl
  · simpa [ClientPc.subscribes] using h

/-- Only `Subscribe` writes SUBSCRIBE frames. -/
theorem ClientOp.start_subscribes {op : ClientOp} (h : ∀ topic, op ≠ .subscribe topic) :
    op.start.subscribes = false := by
  cases op with
  | subscribe topic => exact absurd rfl (h topic)
  | unsubscribe => exact startSend_subscribes (by decide)
  | acknowledge id =>
    show (startAcknowledge id).subscribes = false
    unfold startAcknowledge
    split
    · rfl
    · exact startSend_subscribes (by decide)
  | publishWithResult ctx event random =>
    show (startPublish ctx event random).subscribes = false
    unfold startPublish
    split
    · rfl
    · split <;> rfl
  | ping => decide

theorem CallMove.not_subscribes (h : CallMove c call a pc out) (hpc : pc.subscribes = false) :
    out.pc.subscribes = false := by
  cases h with
  | register =>
    unfold Client.registerCall
    dsimp only
    split
    · rfl
    · exact (by decide : (typePublish = typeSubscribe : Bool) = false)
  | @closed _ after | @write _ after | @writeFails _ after => cases after <;> rfl
  | check => exact hpc
  | _ => rfl

section Sent

variable {G : Client → ClientAction → Prop} {os : List ClientObs} {c' : Client} {a : ClientAction}

/-- A call that is about to write a SUBSCRIBE frame is one of `Subscribe`. -/
theorem subscribes_invoked (h : Client.lts.Reach G log c) (hpc : c.calls call = some pc)
    (hsub : pc.subscribes = true) :
    ∃ topic, .invoked call (.subscribe topic) ∈ log ∧ Subscribing topic log pc := by
  obtain ⟨op, ho⟩ := Client.call_invoked h hpc
  by_cases hop : ∃ topic, op = .subscribe topic
  · obtain ⟨topic, rfl⟩ := hop
    obtain ⟨pc', hpc', hst⟩ := subscribing_inv h ho
    obtain rfl := Option.some.inj (hpc.symm.trans hpc')
    exact ⟨topic, ho, hst⟩
  · obtain ⟨pc', hpc', hnot⟩ :=
      Client.call_stage (Q := fun _ pc => pc.subscribes = false)
        (fun _ => ClientOp.start_subscribes fun topic heq => hop ⟨topic, heq⟩)
        (fun _ _ _ hst => hst) (fun _ _ _ _ _ hm hst => hm.not_subscribes hst) h ho
    obtain rfl := Option.some.inj (hpc.symm.trans hpc')
    exact nomatch hnot.symm.trans hsub

/-- A step that writes a SUBSCRIBE frame is the last one of a call of `Subscribe`. -/
theorem sent_subscribe (h : Client.lts.Reach G log c) (heff : ClientEffect c a c' os)
    (ho : .sent ⟨typeSubscribe, payload⟩ ∈ os) :
    ∃ call topic, encodeTopic ⟨topic⟩ = .ok payload ∧ .invoked call (.subscribe topic) ∈ log ∧
      c.calls call = some (.write ⟨typeSubscribe, payload⟩ .subscribe) ∧
      c'.calls call = some (.returned .ok) ∧
      os = [.sent ⟨typeSubscribe, payload⟩, .returned call .ok] := by
  cases heff with
  | dial =>
    rw [List.mem_singleton, ClientObs.sent.injEq] at ho
    exact absurd (congrArg Frame.type ho) (by decide : typeSubscribe ≠ typeConnect)
  | @call call _ pc out hpc hm =>
    have hwrite : ∃ after, pc = .write ⟨typeSubscribe, payload⟩ after := by
      rcases List.mem_append.mp ho with ho | ho
      · cases hm with
        | write =>
          obtain rfl := ClientObs.sent.inj (List.mem_singleton.mp ho)
          exact ⟨_, rfl⟩
        | register => simp [Client.registerCall] at ho
        | _ => cases ho
      · simp at ho
    obtain ⟨after, rfl⟩ := hwrite
    obtain ⟨topic, hinv, hst⟩ := subscribes_invoked h hpc (by simp [ClientPc.subscribes])
    cases hst with
    | write henc =>
      refine ⟨call, topic, henc, hinv, hpc, ?_⟩
      cases hm with
      | write => exact ⟨Client.setCall_self _ _ _, rfl⟩
      | writeFails => simp [AfterClientSend.failed] at ho
  | readAcknowledge hpc hm =>
    -- `readLoop` sends ACK frames
    cases acking_inv h hpc with
    | check => cases hm <;> exact nomatch ho
    | write =>
      cases hm with
      | write =>
        rw [List.mem_singleton, ClientObs.sent.injEq] at ho
        exact absurd (congrArg Frame.type ho) (by decide : typeSubscribe ≠ typeAck)
      | writeFails => cases ho
    | remember => cases hm; exact nomatch ho
  | _ => simp at ho

/-- Payloads tell topics apart. -/
theorem encodeTopic_inj {topic' : Bytes} (h : encodeTopic ⟨topic⟩ = .ok payload)
    (h' : encodeTopic ⟨topic'⟩ = .ok payload) : topic = topic' := by
  exact TopicMessage.mk.inj (topic_codec.injective _ _ _ h h')

/-- If one call subscribes to the topic, one SUBSCRIBE frame is written for it at most. -/
theorem subscribe_once (h : Client.lts.Reach G log c) {topic payload : Bytes}
    (henc : encodeTopic ⟨topic⟩ = .ok payload)
    (hone : ∀ call call', .invoked call (.subscribe topic) ∈ log →
      .invoked call' (.subscribe topic) ∈ log → call = call') :
    log.count (.sent ⟨typeSubscribe, payload⟩) ≤ 1 := by
  -- the call that has written the frame has returned
  have hinv := h.induct_reach (P := fun log c =>
    (.sent ⟨typeSubscribe, payload⟩ ∈ log → ∃ call, .invoked call (.subscribe topic) ∈ log ∧
      c.calls call = some (.returned .ok)) ∧
    ((∀ call call', .invoked call (.subscribe topic) ∈ log →
      .invoked call' (.subscribe topic) ∈ log → call = call') →
      log.count (.sent ⟨typeSubscribe, payload⟩) ≤ 1)) ?_ ?_
  · exact hinv.2 hone
  · exact fun _ _ => ⟨by simp, by simp⟩
  intro log c a c' os hr ih _ hstep
  have heff := client_step_effect hstep
  by_cases hnew : .sent ⟨typeSubscribe, payload⟩ ∈ os
  · obtain ⟨call, topic', henc', ho, hpc, hpc', rfl⟩ := sent_subscribe hr heff hnew
    obtain rfl := encodeTopic_inj henc henc'
    refine ⟨fun _ => ⟨call, List.mem_append_left _ ho, hpc'⟩, fun hone => ?_⟩
    have hnone : .sent ⟨typeSubscribe, payload⟩ ∉ log := by
      intro hold
      obtain ⟨call', ho', hret⟩ := ih.1 hold
      obtain rfl := hone call call' (List.mem_append_left _ ho) (List.mem_append_left _ ho')
      exact nomatch hpc.symm.trans hret
    simp [List.count_append, List.count_eq_zero_of_not_mem hnone]
  · constructor
    · intro hmem
      obtain ⟨call, ho, hret⟩ := ih.1 ((List.mem_append.mp hmem).resolve_right hnew)
      refine ⟨call, List.mem_append_left _ ho, ?_⟩
      rcases heff.cases_call call with ⟨hsame, -⟩ | ⟨_, -, hnone, -⟩ | ⟨_, _, _, -, hpc, hm, -⟩
      · exact hsame.trans hret
      · exact nomatch hnone.symm.trans hret
      · obtain rfl := Option.some.inj (hpc.symm.trans hret)
        cases hm
    · intro hone
      rw [List.count_append, List.count_eq_zero_of_not_mem hnew, Nat.add_zero]
      exact ih.2 fun call call' ho ho' =>
        hone call call' (List.mem_append_left _ ho) (List.mem_append_left _ ho')

end Sent

end EventBus
