import EventBus.Spec.ClientStep
import EventBus.Spec.MessagesCorrect
import EventBus.Spec.SessionStep

/-!
# What PublishWithResult returns

`PublishWithResult` enters a channel under the ID of its message in `c.pending`, and
`readLoop` sends an ACK to the channel that it finds there under the ACK's ID. What a call
returns is therefore made of an ACK with the ID of its own message, unless it gave up.

## Key results

- `reply_inv`: how ACKs reach the channels of the calls
- `returned_result`: what a call of `PublishWithResult` has returned
- `write_failed`: when a write fails though the writes succeed
- `sent_nodup`: calls with distinct IDs send distinct messages
-/

namespace EventBus

variable {log os : List ClientObs} {event : Event} {ret : ClientRet} {ch : ReplyChan}
  {pc : ClientPc} {call : ClientCall} {c c' : Client} {b : CallAction} {out : CallOut}
  {a : ClientAction} {G : Client → ClientAction → Prop} {text : Bytes} {m : PublishMessage}

/-- `readLoop` has read this ACK. -/
def AckRead (log : List ClientObs) (ack : AckMessage) : Prop :=
  ∃ frame, .read frame ∈ log ∧ frame.type = typeAck ∧ decodeAck frame.payload = .ok ack

/-- The channel was entered under this ID. -/
def RegisteredAs (log : List ClientObs) (ch : ReplyChan) (id : Bytes) : Prop :=
  ∃ call event, .registered call ch event ∈ log ∧ event.id = id

/-- An ACK that is in, or on its way to, channel `ch`. -/
def Routed (log : List ClientObs) (ch : ReplyChan) (ack : AckMessage) : Prop :=
  AckRead log ack ∧ RegisteredAs log ch ack.id

section Append

variable {ack : AckMessage} {id : Bytes}

theorem AckRead.append (h : AckRead log ack) (os : List ClientObs) : AckRead (log ++ os) ack := by
  obtain ⟨frame, hread, hrest⟩ := h
  exact ⟨frame, List.mem_append_left _ hread, hrest⟩

theorem RegisteredAs.append (h : RegisteredAs log ch id) (os : List ClientObs) :
    RegisteredAs (log ++ os) ch id := by
  obtain ⟨call, event, hreg, hid⟩ := h
  exact ⟨call, event, List.mem_append_left _ hreg, hid⟩

theorem Routed.append (h : Routed log ch ack) (os : List ClientObs) : Routed (log ++ os) ch ack :=
  ⟨h.1.append os, h.2.append os⟩

end Append

/-! ## Calls -/

/-- A call that does not publish: no method but `PublishWithResult` makes a channel. -/
def ClientPc.plain : ClientPc → Bool
  | .check frame .subscribe | .write frame .subscribe | .check frame (.acknowledge _)
  | .write frame (.acknowledge _) => frame.type ≠ typePublish
  | .remember _ | .returned _ => true
  | _ => false

/-- What `PublishWithResult` may return for this event: what it makes of an ACK with the ID
    of the event, or an error of its own. -/
inductive PublishEnd (log : List ClientObs) (event : Event) : ClientRet → Prop
  | acked {ack : AckMessage} : AckRead log ack → ack.id = event.id →
      PublishEnd log event (publishResult ack)
  | message {err : MsgErr} : encodePublish event.message = .error err →
      PublishEnd log event (.failed (.message err))
  | write {text : Bytes} : PublishEnd log event (.failed (.write text))
  | ctx {err : CtxErr} : PublishEnd log event (.failed (.ctx err))
  | closed : PublishEnd log event (.failed .closed)

theorem PublishEnd.append (h : PublishEnd log event ret) (os : List ClientObs) :
    PublishEnd (log ++ os) event ret := by
  cases h with
  | acked hread hid => exact .acked (hread.append os) hid
  | message henc => exact .message henc
  | write => exact .write
  | ctx => exact .ctx
  | closed => exact .closed

/-- Where a call of `PublishWithResult` stands that has registered channel `ch` for `event`. -/
inductive PublishStage (log : List ClientObs) (event : Event) (ch : ReplyChan) : ClientPc → Prop
  | check {ctx : Ctx} {payload : Bytes} : encodePublish event.message = .ok payload →
      PublishStage log event ch (.check ⟨typePublish, payload⟩ (.publish ctx event.id ch))
  | write {ctx : Ctx} {payload : Bytes} : encodePublish event.message = .ok payload →
      PublishStage log event ch (.write ⟨typePublish, payload⟩ (.publish ctx event.id ch))
  | wait {ctx : Ctx} : PublishStage log event ch (.wait ctx event.id ch)
  | leave {ret : ClientRet} : PublishEnd log event ret →
      PublishStage log event ch (.leave event.id ret)
  | returned {ret : ClientRet} : PublishEnd log event ret →
      PublishStage log event ch (.returned ret)

theorem PublishStage.append (h : PublishStage log event ch pc) (os : List ClientObs) :
    PublishStage (log ++ os) event ch pc := by
  cases h with
  | check henc => exact .check henc
  | write henc => exact .write henc
  | wait => exact .wait
  | leave hend => exact .leave (hend.append os)
  | returned hend => exact .returned (hend.append os)

/-- What is known of a call from where it stands. -/
inductive CallStage (log : List ClientObs) (call : ClientCall) : ClientPc → Prop
  | plain {pc : ClientPc} : pc.plain = true → (∀ ch event, .registered call ch event ∉ log) →
      CallStage log call pc
  | register {ctx : Ctx} {event : Event} : (∀ ch event, .registered call ch event ∉ log) →
      CallStage log call (.register ctx event)
  | publish {ch : ReplyChan} {event : Event} {pc : ClientPc} : .registered call ch event ∈ log →
      (∀ ch' event', .registered call ch' event' ∈ log → ch' = ch ∧ event' = event) →
      PublishStage log event ch pc → CallStage log call pc

/-- How ACKs reach the channels of the calls. -/
structure Client.ReplyInv (log : List ClientObs) (c : Client) : Prop where
  handled : ∀ frame, c.reader = .handle frame → .read frame ∈ log
  acknowledging : ∀ pc, c.reader = .acknowledge pc → pc.plain = true
  pending : ∀ id ch, c.pending.lookup id = some ch → RegisteredAs log ch id
  replying : ∀ ch ack, c.reader = .reply ch ack → Routed log ch ack
  buffered : ∀ (ch : ReplyChan) (chan : Chan AckMessage) ack, c.replies[ch]? = some chan →
    ack ∈ chan.buf → Routed log ch ack
  made : ∀ call ch event, .registered call ch event ∈ log →
    ch < c.replies.length ∧ c.calls call ≠ none
  unique : ∀ call call' ch event event', .registered call ch event ∈ log →
    .registered call' ch event' ∈ log → call = call' ∧ event = event'
  calls : ∀ call pc, c.calls call = some pc → CallStage log call pc

/-! ## Steps of calls -/

theorem CallStage.append (h : CallStage log call pc)
    (hos : ∀ ch event, .registered call ch event ∉ os) :
    CallStage (log ++ os) call pc := by
  have hmem : ∀ {ch event}, .registered call ch event ∈ log ++ os →
      .registered call ch event ∈ log :=
    fun hreg => (List.mem_append.mp hreg).resolve_right (hos _ _)
  cases h with
  | plain hpc hnone => exact .plain hpc fun ch event hreg => hnone ch event (hmem hreg)
  | register hnone => exact .register fun ch event hreg => hnone ch event (hmem hreg)
  | publish hreg huniq hst =>
    exact .publish (List.mem_append_left _ hreg) (fun ch event hr => huniq ch event (hmem hr))
      (hst.append os)

section Call

variable {a : CallAction}

/-- Only `PublishWithResult` registers a channel, a new one. -/
theorem CallMove.registered (h : CallMove c call a pc out) {call' : ClientCall}
    (ho : .registered call' ch event ∈ out.obs) :
    (∃ ctx, pc = .register ctx event ∧ out = c.registerCall call ctx event) ∧ call' = call ∧
      ch = c.replies.length := by
  cases h with
  | register =>
    obtain ⟨rfl, rfl, rfl⟩ := ClientObs.registered.inj (List.mem_singleton.mp ho)
    exact ⟨⟨_, rfl, rfl⟩, rfl, rfl⟩
  | _ => simp at ho

/-- A call that does not publish registers no channel. -/
theorem CallMove.plain (h : CallMove c call a pc out) (hpc : pc.plain = true) :
    out.pc.plain = true ∧ ∀ call' ch event, .registered call' ch event ∉ out.obs := by
  cases h with
  | register => cases hpc
  | @closed frame after | @writeFails frame after =>
    cases after with
    | publish => cases hpc
    | _ => exact ⟨rfl, nofun⟩
  | @check frame after =>
    cases after with
    | publish => cases hpc
    | _ => exact ⟨hpc, nofun⟩
  | @write frame after =>
    cases after with
    | publish => cases hpc
    | _ => exact ⟨rfl, by simp⟩
  | remember => exact ⟨rfl, nofun⟩
  | _ => cases hpc

/-- A call of `PublishWithResult` that has registered its channel goes on. -/
private theorem CallMove.publishStage (h : CallMove c call a pc out) (hinv : c.ReplyInv log)
    (hreg : .registered call ch event ∈ log) (hst : PublishStage log event ch pc) :
    PublishStage log event ch out.pc := by
  cases h with
  | register => cases hst
  | closed =>
    cases hst with
    | check => exact .leave .closed
  | check =>
    cases hst with
    | check henc => exact .write henc
  | write =>
    cases hst with
    | write => exact .wait
  | writeFails =>
    cases hst with
    | write => exact .leave .write
  | @acknowledged ctx id ch' chan chan' ack hch hrecv =>
    cases hst with
    | wait =>
      -- the channel was entered under the ID of the ACK, and by this call
      have hmem : ack ∈ chan.buf := by rw [(Chan.receive_some hrecv).1]; exact .head _
      obtain ⟨hread, call', event', hreg', hid⟩ := hinv.buffered ch chan ack hch hmem
      obtain ⟨-, rfl⟩ := hinv.unique call call' ch event event' hreg hreg'
      exact .leave (.acked hread hid.symm)
  | ctxDone =>
    cases hst with
    | wait => exact .leave .ctx
  | clientDone =>
    cases hst with
    | wait => exact .leave .closed
  | remember => cases hst
  | leave =>
    cases hst with
    | leave hend => exact .returned hend

/-- A step of the call brings it to its next stage. -/
theorem CallMove.stage (h : CallMove c call a pc out) (hinv : c.ReplyInv log)
    (hst : CallStage log call pc) :
    CallStage (log ++ out.obs) call out.pc := by
  cases hst with
  | plain hpc hnone =>
    obtain ⟨hpc', hobs⟩ := h.plain hpc
    exact CallStage.append (.plain hpc' hnone) (hobs call)
  | @register ctx event hnone =>
    cases h with
    | register =>
      have hreg : ClientObs.registered call c.replies.length event ∈
          log ++ (c.registerCall call ctx event).obs := List.mem_append_right _ (.head _)
      refine .publish hreg ?_ ?_
      · intro ch' event' hreg
        rcases List.mem_append.mp hreg with hold | hnew
        · exact absurd hold (hnone ch' event')
        · obtain ⟨-, rfl, rfl⟩ := ClientObs.registered.inj (List.mem_singleton.mp hnew)
          exact ⟨rfl, rfl⟩
      · unfold Client.registerCall
        dsimp only
        split
        · exact .leave (.message ‹_›)
        · exact .check ‹_›
  | @publish ch event _ hreg huniq hst =>
    refine CallStage.append (.publish hreg huniq (h.publishStage hinv hreg hst)) ?_
    intro ch' event' ho
    obtain ⟨⟨ctx, rfl, -⟩, -, -⟩ := h.registered ho
    cases hst

/-- A pending channel was pending before, or is registered in this step. -/
theorem CallMove.pending (h : CallMove c call a pc out) {id : Bytes}
    (hl : out.client.pending.lookup id = some ch) :
    c.pending.lookup id = some ch ∨
      ∃ event, .registered call ch event ∈ out.obs ∧ event.id = id := by
  cases h with
  | @register ctx event =>
    by_cases hid : id = event.id
    · subst hid
      replace hl : (c.pending.insert event.id c.replies.length).lookup event.id = some ch := hl
      rw [AList.lookup_insert, Option.some.injEq] at hl
      subst hl
      exact .inr ⟨event, .head _, rfl⟩
    · replace hl : (c.pending.insert event.id c.replies.length).lookup id = some ch := hl
      rw [AList.lookup_insert_ne hid] at hl
      exact .inl hl
  | @leave id' ret =>
    by_cases hid : id = id'
    · subst hid
      rw [AList.lookup_erase] at hl
      cases hl
    · rw [AList.lookup_erase_ne hid] at hl
      exact .inl hl
  | @remember eventID =>
    obtain ⟨_, _, heq⟩ := c.rememberDelivery_eq eventID
    rw [heq] at hl
    exact .inl hl
  | _ => exact .inl hl

/-- A call puts nothing in a channel. -/
theorem CallMove.buffered (h : CallMove c call a pc out) {chan : Chan AckMessage}
    {ack : AckMessage} (hch : out.client.replies[ch]? = some chan) (hack : ack ∈ chan.buf) :
    ∃ chan, c.replies[ch]? = some chan ∧ ack ∈ chan.buf := by
  cases h with
  | register =>
    rcases List.getElem?_concat_cases hch with hold | ⟨-, rfl⟩
    · exact ⟨chan, hold, hack⟩
    · cases hack
  | @acknowledged ctx id ch' chan₀ chan₁ ack' hch' hrecv =>
    rcases List.getElem?_set_cases hch with ⟨rfl, rfl⟩ | ⟨-, hold⟩
    · exact ⟨chan₀, hch', by rw [(Chan.receive_some hrecv).1]; exact .tail _ hack⟩
    · exact ⟨chan, hold, hack⟩
  | @remember eventID =>
    obtain ⟨_, _, heq⟩ := c.rememberDelivery_eq eventID
    rw [heq] at hch
    exact ⟨chan, hch, hack⟩
  | _ => exact ⟨chan, hch, hack⟩

/-- Channels are only added. -/
theorem CallMove.length (h : CallMove c call a pc out) :
    c.replies.length ≤ out.client.replies.length := by
  cases h with
  | register => simp [Client.registerCall]
  | acknowledged => simp
  | @remember eventID =>
    obtain ⟨_, _, heq⟩ := c.rememberDelivery_eq eventID
    rw [heq]
  | _ => exact Nat.le_refl _

end Call

/-! ## Steps of the client -/

/-- What a step of the client can do to the channels of its calls. -/
structure ReplyStep (c c' : Client) (os : List ClientObs) : Prop where
  handled : ∀ frame, c'.reader = .handle frame → c.reader = .handle frame ∨ .read frame ∈ os
  replying : ∀ ch ack, c'.reader = .reply ch ack → c.reader = .reply ch ack ∨
    ∃ frame, c.reader = .handle frame ∧ frame.type = typeAck ∧
      decodeAck frame.payload = .ok ack ∧ c.pending.lookup ack.id = some ch
  pending : ∀ id ch, c'.pending.lookup id = some ch → c.pending.lookup id = some ch ∨
    ∃ call event, .registered call ch event ∈ os ∧ event.id = id
  buffered : ∀ (ch : ReplyChan) (chan : Chan AckMessage) ack, c'.replies[ch]? = some chan →
    ack ∈ chan.buf → c.reader = .reply ch ack ∨ ∃ chan, c.replies[ch]? = some chan ∧ ack ∈ chan.buf
  length : c.replies.length ≤ c'.replies.length
  made : ∀ call ch event, .registered call ch event ∈ os → ch = c.replies.length ∧
    ch < c'.replies.length ∧ ∃ ctx, c.calls call = some (.register ctx event)
  same : ∀ call call' ch ch' event event', .registered call ch event ∈ os →
    .registered call' ch' event' ∈ os → call = call' ∧ event = event'

/-- A step that leaves the channels alone, and whose reader has no ACK in hand, or stays. -/
theorem ReplyStep.of_eq
    (hhandled : ∀ frame, c'.reader = .handle frame → c.reader = .handle frame ∨ .read frame ∈ os)
    (hreplying : ∀ ch ack, c'.reader = .reply ch ack → c.reader = .reply ch ack)
    (hpending : c'.pending = c.pending) (hreplies : c'.replies = c.replies)
    (hos : ∀ call ch event, .registered call ch event ∉ os) : ReplyStep c c' os where
  handled := hhandled
  replying ch ack hr := .inl (hreplying ch ack hr)
  pending _ _ hl := .inl (hpending ▸ hl)
  buffered _ chan _ hch hack := .inr ⟨chan, hreplies ▸ hch, hack⟩
  length := by rw [hreplies]
  made call ch event ho := absurd ho (hos call ch event)
  same call call' ch ch' event event' ho := absurd ho (hos call ch event)

theorem Client.not_registered_returnObs (call : ClientCall) (pc : ClientPc) (call' : ClientCall)
    (ch : ReplyChan) (event : Event) :
    .registered call' ch event ∉ Client.returnObs call pc := by
  cases pc <;> simp [Client.returnObs]

/-- A step of a call, seen from the channels. -/
private theorem CallMove.replyStep (hm : CallMove c call b pc out)
    (hpc : ∀ ctx event, pc = .register ctx event → c.calls call = some pc)
    (hpending : c'.pending = out.client.pending) (hreplies : c'.replies = out.client.replies)
    (hhandled : ∀ frame, c'.reader = .handle frame → c.reader = .handle frame)
    (hreplying : ∀ ch ack, c'.reader = .reply ch ack → c.reader = .reply ch ack)
    (hos : ∀ call ch event, .registered call ch event ∈ os → .registered call ch event ∈ out.obs)
    (hos' : ∀ o ∈ out.obs, o ∈ os) :
    ReplyStep c c' os where
  handled frame hr := .inl (hhandled frame hr)
  replying ch ack hr := .inl (hreplying ch ack hr)
  pending id ch hl := by
    rw [hpending] at hl
    rcases hm.pending hl with hold | ⟨event, ho, hid⟩
    · exact .inl hold
    · exact .inr ⟨call, event, hos' _ ho, hid⟩
  buffered ch chan ack hch hack := by
    rw [hreplies] at hch
    exact .inr (hm.buffered hch hack)
  length := by
    rw [hreplies]
    exact hm.length
  made call' ch event ho := by
    obtain ⟨⟨ctx, rfl, rfl⟩, rfl, rfl⟩ := hm.registered (hos _ _ _ ho)
    refine ⟨rfl, ?_, ctx, hpc ctx event rfl⟩
    rw [hreplies]
    simp [Client.registerCall]
  same call₁ call₂ ch₁ ch₂ event₁ event₂ ho₁ ho₂ := by
    obtain ⟨⟨ctx₁, h₁, -⟩, rfl, -⟩ := hm.registered (hos _ _ _ ho₁)
    obtain ⟨⟨ctx₂, h₂, -⟩, rfl, -⟩ := hm.registered (hos _ _ _ ho₂)
    rw [h₁] at h₂
    exact ⟨rfl, (ClientPc.register.inj h₂).2⟩

/-- Every step of the client is one of these. -/
theorem ClientEffect.replyStep (h : ClientEffect c a c' os)
    (hplain : ∀ pc, c.reader = .acknowledge pc → pc.plain = true) : ReplyStep c c' os := by
  cases h with
  | dial => exact .of_eq nofun nofun rfl rfl (by simp)
  | @invoke call op =>
    refine .of_eq (fun _ => .inl) (fun _ _ => id) rfl rfl ?_
    intro call' ch event ho
    rcases List.mem_cons.mp ho with heq | hret
    · cases heq
    · exact Client.not_registered_returnObs call op.start call' ch event hret
  | @call call b pc out hpc hm =>
    obtain ⟨_, _, _, _, heq⟩ := hm.client_eq
    refine hm.replyStep (fun _ _ _ => hpc) rfl rfl (fun frame hr => ?_) (fun ch ack hr => ?_) ?_ ?_
    · replace hr : out.client.reader = .handle frame := hr
      rwa [heq] at hr
    · replace hr : out.client.reader = .reply ch ack := hr
      rwa [heq] at hr
    · intro call' ch event ho
      exact (List.mem_append.mp ho).resolve_right
        (Client.not_registered_returnObs call out.pc call' ch event)
    · exact fun o ho => List.mem_append_left _ ho
  | read =>
    refine .of_eq (fun frame hr => .inr ?_) nofun rfl rfl (by simp)
    rw [ReadPc.handle.inj hr]
    exact .head _
  | @dispatch frame hpc =>
    exact {
      handled := fun frame' hr => absurd hr (c.handled frame).ne_handle
      replying := fun ch ack hr => .inr ⟨frame, hpc, (c.handled frame).reply_inv hr⟩
      pending := fun _ _ hl => .inl hl
      buffered := fun _ chan _ hch hack => .inr ⟨chan, hch, hack⟩
      length := Nat.le_refl _
      made := nofun
      same := nofun }
  | @readAcknowledge b pc out hpc hm =>
    -- `readLoop` acknowledges, and so it neither registers nor answers meanwhile
    have hnone := (hm.plain (hplain pc hpc)).2
    have hnot : ∀ pc', (∀ frame, Client.readAcknowledgePc pc' ≠ .handle frame) ∧
        ∀ ch ack, Client.readAcknowledgePc pc' ≠ .reply ch ack := by
      intro pc'
      cases pc' <;> exact ⟨nofun, nofun⟩
    refine hm.replyStep (fun ctx event heq => ?_) rfl rfl ?_ ?_ (fun _ _ _ => id) fun _ => id
    · have := hplain pc hpc
      rw [heq] at this
      exact nomatch this
    · exact fun frame hr => absurd hr ((hnot out.pc).1 frame)
    · exact fun ch ack hr => absurd hr ((hnot out.pc).2 ch ack)
  | @reply ch ack chan chan' hpc hch hsend =>
    obtain ⟨-, -, hbuf, -, -⟩ := Chan.send_done hsend
    exact {
      handled := nofun
      replying := nofun
      pending := fun _ _ hl => .inl hl
      buffered := by
        intro ch' chan₁ ack' hch' hack
        -- what is in the channel was there before, or is the ACK that was in hand
        rcases List.getElem?_set_cases hch' with ⟨rfl, rfl⟩ | ⟨-, hold⟩
        · rw [hbuf, List.mem_append, List.mem_singleton] at hack
          rcases hack with hack | rfl
          · exact .inr ⟨chan, hch, hack⟩
          · exact .inl hpc
        · exact .inr ⟨chan₁, hold, hack⟩
      length := by simp
      made := nofun
      same := nofun }
  | put | shutdown => exact .of_eq nofun nofun rfl rfl (by simp)
  | readFails | putDone | shutdownDone | readClosed | closeShutdowns | closeEvents =>
    exact .of_eq nofun nofun rfl rfl nofun
  | _ => exact .of_eq (fun _ => .inl) (fun _ _ => id) rfl rfl (by simp)

theorem plain_startSend {type : FrameType} (htype : type ≠ typePublish)
    (payload : Except MsgErr Bytes) {after : AfterClientSend} (hafter : after.pc.plain = true) :
    (startSend type payload after).plain = true := by
  unfold startSend
  split
  · rfl
  · cases after with
    | publish => cases hafter
    | _ => simpa [ClientPc.plain] using htype

theorem plain_startAcknowledge (eventID : Bytes) : (startAcknowledge eventID).plain = true := by
  unfold startAcknowledge
  split
  · rfl
  · exact plain_startSend (by decide) _ rfl

/-- A method starts as a plain call or as a call of `PublishWithResult`. -/
theorem start_cases (op : ClientOp) :
    op.start.plain = true ∨ ∃ ctx event, op.start = .register ctx event := by
  cases op with
  | subscribe | unsubscribe => exact .inl (plain_startSend (by decide) _ rfl)
  | acknowledge => exact .inl (plain_startAcknowledge _)
  | ping => exact .inl rfl
  | publishWithResult ctx event random =>
    show (startPublish ctx event random).plain = true ∨ _
    cases random with
    | ok random => exact .inr ⟨_, _, rfl⟩
    | error text =>
      by_cases hid : event.id = []
      · exact .inl (by simp [startPublish, hid, ClientPc.plain])
      · exact .inr ⟨ctx, event.withIdempotencyKey, by simp [ClientOp.start, startPublish, hid]⟩

/-- `readLoop` calls `Acknowledge` only. -/
theorem ClientEffect.acknowledging (h : ClientEffect c a c' os)
    (hplain : ∀ pc, c.reader = .acknowledge pc → pc.plain = true) (pc : ClientPc)
    (hr : c'.reader = .acknowledge pc) : pc.plain = true := by
  cases h with
  | @dispatch frame =>
    obtain ⟨event, -, -, -, rfl⟩ := (c.handled frame).acknowledge_inv hr
    exact plain_startAcknowledge event.id
  | @readAcknowledge b pc' out hpc hm =>
    replace hr : Client.readAcknowledgePc out.pc = .acknowledge pc := hr
    rcases Client.readAcknowledgePc_cases out.pc with ⟨_, -, heq⟩ | heq
    · rw [heq] at hr
      cases hr
    · rw [heq] at hr
      exact ReadPc.acknowledge.inj hr ▸ (hm.plain (hplain _ hpc)).1
  | @call call b pc' out _ hm =>
    obtain ⟨_, _, _, _, heq⟩ := hm.client_eq
    replace hr : out.client.reader = .acknowledge pc := hr
    rw [heq] at hr
    exact hplain pc hr
  | peerSend | invoke | close | closeConn | receive | receiveShutdown | readClose =>
    exact hplain pc hr
  | _ => cases hr

/-- An event is registered by a step of its call. -/
theorem ClientEffect.registered_call (h : ClientEffect c a c' os)
    (hplain : ∀ pc, c.reader = .acknowledge pc → pc.plain = true)
    (ho : .registered call ch event ∈ os) :
    ∃ b, a = .call call b := by
  cases h with
  | @invoke call' op =>
    have hret := (List.mem_cons.mp ho).resolve_left nofun
    exact absurd hret (Client.not_registered_returnObs call' op.start call ch event)
  | @call call' b pc out hpc hm =>
    rcases List.mem_append.mp ho with hobs | hret
    · exact ⟨b, by rw [(hm.registered hobs).2.1]⟩
    · exact absurd hret (Client.not_registered_returnObs call' out.pc call ch event)
  | readAcknowledge hr hm => exact absurd ho ((hm.plain (hplain _ hr)).2 call ch event)
  | _ => simp at ho

/-- The calls of the client are at their stages after a step. -/
theorem ClientEffect.calls (h : ClientEffect c a c' os) (hinv : c.ReplyInv log)
    (call : ClientCall) (pc : ClientPc) (hpc : c'.calls call = some pc) :
    CallStage (log ++ os) call pc := by
  have hmoves : ∀ ch event, .registered call ch event ∈ os → ∃ b, a = .call call b :=
    fun ch event ho => h.registered_call hinv.acknowledging ho
  rcases h.cases_call call with
    ⟨hsame, -, -, hnot⟩ | ⟨op, rfl, hnone, hpc', -⟩ | ⟨b, pc₀, out, -, hpc₀, hm, hpc', rfl⟩
  · -- a call that does not move registers nothing
    refine (hinv.calls call pc (hsame ▸ hpc)).append fun ch event ho => ?_
    obtain ⟨b, ha⟩ := hmoves ch event ho
    exact hnot b ha
  · obtain rfl := Option.some.inj (hpc'.symm.trans hpc)
    have hfresh : ∀ ch event, .registered call ch event ∉ log := fun ch event hreg =>
      (hinv.made call ch event hreg).2 hnone
    refine CallStage.append ?_ fun ch event ho => ?_
    · rcases start_cases op with hplain | ⟨ctx, event, heq⟩
      · exact .plain hplain hfresh
      · rw [heq]
        exact .register hfresh
    · obtain ⟨b, ha⟩ := hmoves ch event ho
      cases ha
  · obtain rfl := Option.some.inj (hpc'.symm.trans hpc)
    rw [← List.append_assoc]
    exact (hm.stage hinv (hinv.calls call pc₀ hpc₀)).append
      (Client.not_registered_returnObs call out.pc call)

/-- The calls that are there stay. -/
theorem ClientEffect.calls_mono (h : ClientEffect c a c' os) (hne : c.calls call ≠ none) :
    c'.calls call ≠ none := by
  rcases h.cases_call call with ⟨hsame, -⟩ | ⟨op, -, -, hpc', -⟩ | ⟨b, pc, out, -, -, -, hpc', -⟩
  · rwa [hsame]
  · simp [hpc']
  · simp [hpc']

/-- A step keeps the routes of the ACKs. -/
theorem Client.ReplyInv.step (hinv : c.ReplyInv log) (h : ClientEffect c a c' os) :
    c'.ReplyInv (log ++ os) where
  handled frame hr := by
    rcases (h.replyStep hinv.acknowledging).handled frame hr with hold | hread
    · exact List.mem_append_left _ (hinv.handled frame hold)
    · exact List.mem_append_right _ hread
  acknowledging := h.acknowledging hinv.acknowledging
  pending id ch hl := by
    rcases (h.replyStep hinv.acknowledging).pending id ch hl with hold | ⟨call, event, hreg, hid⟩
    · exact (hinv.pending id ch hold).append os
    · exact ⟨call, event, List.mem_append_right _ hreg, hid⟩
  replying ch ack hr := by
    rcases (h.replyStep hinv.acknowledging).replying ch ack hr with
      hold | ⟨frame, hpc, htype, hdec, hl⟩
    · exact (hinv.replying ch ack hold).append os
    · exact Routed.append ⟨⟨frame, hinv.handled frame hpc, htype, hdec⟩, hinv.pending _ ch hl⟩ os
  buffered ch chan ack hch hack := by
    rcases (h.replyStep hinv.acknowledging).buffered ch chan ack hch hack with
      hr | ⟨chan', hch', hack'⟩
    · exact (hinv.replying ch ack hr).append os
    · exact (hinv.buffered ch chan' ack hch' hack').append os
  made call ch event hreg := by
    rcases List.mem_append.mp hreg with hold | hnew
    · obtain ⟨hlt, hne⟩ := hinv.made call ch event hold
      exact ⟨Nat.lt_of_lt_of_le hlt (h.replyStep hinv.acknowledging).length, h.calls_mono hne⟩
    · obtain ⟨-, hlt, ctx, hpc⟩ := (h.replyStep hinv.acknowledging).made call ch event hnew
      exact ⟨hlt, h.calls_mono (by rw [hpc]; exact Option.some_ne_none _)⟩
  unique call call' ch event event' hreg hreg' := by
    have hstep := h.replyStep hinv.acknowledging
    -- a channel just made is none of those made before
    have hfresh : ∀ {call call' event event'}, .registered call ch event ∈ log →
        .registered call' ch event' ∉ os := by
      intro call call' event event' hold hnew
      exact absurd (hstep.made call' ch event' hnew).1
        (Nat.ne_of_lt (hinv.made call ch event hold).1)
    rcases List.mem_append.mp hreg with hold | hnew <;>
      rcases List.mem_append.mp hreg' with hold' | hnew'
    · exact hinv.unique call call' ch event event' hold hold'
    · exact absurd hnew' (hfresh hold)
    · exact absurd hnew (hfresh hold')
    · exact hstep.same call call' ch ch event event' hnew hnew'
  calls := h.calls hinv

/-- How ACKs reach the channels of the calls, in every run. -/
theorem reply_inv (h : Client.lts.Reach G log c) : c.ReplyInv log := by
  refine h.invariant (P := fun log c => c.ReplyInv log) ?_ ?_
  · rintro _ rfl
    exact ⟨nofun, nofun, nofun, nofun, nofun, nofun, nofun, nofun⟩
  · exact fun log c a c' os hinv _ hstep => hinv.step (client_step_effect hstep)

/-! ## Results -/

/-- A call that reports its result has returned it. -/
theorem returned_call (h : Client.lts.Reach G log c) (ho : .returned call ret ∈ log) :
    c.calls call = some (.returned ret) := by
  refine h.invariant
    (P := fun log c => .returned call ret ∈ log → c.calls call = some (.returned ret))
    (by simp) ?_ ho
  intro log c a c' os hinv _ hstep ho
  rcases (client_step_effect hstep).cases_call call with
    ⟨hsame, -, hnot, -⟩ | ⟨op, -, hnone, hpc', rfl⟩ | ⟨b, pc, out, -, hpc, hm, hpc', rfl⟩
  · rw [hsame]
    exact hinv ((List.mem_append.mp ho).resolve_right (hnot ret))
  · rcases List.mem_append.mp ho with hold | hnew
    · rw [hinv hold] at hnone
      cases hnone
    · rw [hpc']
      simpa using hnew
  · rcases List.mem_append.mp ho with hold | hnew
    · -- a call that has returned takes no step
      rw [hinv hold, Option.some.injEq] at hpc
      subst hpc
      cases hm
    · rw [hpc', (hm.returned_obs hnew).2]

/-- A call registers one event. -/
theorem registered_once (h : Client.lts.Reach G log c) {ch' : ReplyChan} {event' : Event}
    (hreg : .registered call ch event ∈ log) (hreg' : .registered call ch' event' ∈ log) :
    event' = event := by
  have hinv := reply_inv h
  obtain ⟨pc, hpc⟩ := Option.ne_none_iff_exists'.mp (hinv.made call ch event hreg).2
  cases hinv.calls call pc hpc with
  | plain _ hnone | register hnone => exact absurd hreg (hnone ch event)
  | publish _ huniq => exact (huniq ch' event' hreg').2.trans (huniq ch event hreg).2.symm

/-- What a call of `PublishWithResult` has returned. -/
theorem returned_result (h : Client.lts.Reach G log c) (hreg : .registered call ch event ∈ log)
    (ho : .returned call ret ∈ log) :
    PublishEnd log event ret := by
  have hstage := (reply_inv h).calls call _ (returned_call h ho)
  generalize hpc : ClientPc.returned ret = pc at hstage
  cases hstage with
  | plain _ hnone => exact absurd hreg (hnone ch event)
  | register => cases hpc
  | publish _ huniq hst =>
    obtain ⟨-, rfl⟩ := huniq ch event hreg
    cases hst with
    | returned hend =>
      obtain rfl := ClientPc.returned.inj hpc
      exact hend
    | _ => cases hpc

/-- A write of a call fails only if `WriteFrame` refuses the frame. -/
def CallWrites (c : Client) (a : ClientAction) : Prop :=
  ∀ call text frame after, a = .call call (.writeFails text) →
    c.calls call = some (.write frame after) → ∃ err, writeFrame frame = .error err

/-- What a call has decided to return. -/
def ClientPc.result : ClientPc → Option ClientRet
  | .leave _ ret | .returned ret => some ret
  | _ => none

/-- The error of a write comes from a write. -/
theorem CallMove.writeFailed {a : CallAction} (h : CallMove c call a pc out)
    (hout : out.pc.result = some (.failed (.write text))) :
    pc.result = some (.failed (.write text)) ∨
      ∃ frame after, pc = .write frame after ∧ a = .writeFails text := by
  cases h with
  | register =>
    unfold Client.registerCall at hout
    dsimp only at hout
    split at hout <;> simp [ClientPc.result] at hout
  | @closed frame after => cases after <;> simp [AfterClientSend.failed, ClientPc.result] at hout
  | @writeFails frame after text' =>
    right
    have htext : text' = text := by
      cases after <;> simpa [AfterClientSend.failed, ClientPc.result] using hout
    exact ⟨frame, after, rfl, htext ▸ rfl⟩
  | @write frame after => cases after <;> simp [AfterClientSend.pc, ClientPc.result] at hout
  | acknowledged =>
    simp only [ClientPc.result, publishResult, Option.some.injEq] at hout
    split at hout
    · simp at hout
    · split at hout <;> simp at hout
  | leave => exact .inl hout
  | _ => simp [ClientPc.result] at hout

/-- A method that fails before its write reports no failed write. -/
theorem start_not_writeFailed (op : ClientOp) (text : Bytes) :
    op.start.result ≠ some (.failed (.write text)) := by
  have hsend : ∀ type payload after,
      (startSend type payload after).result ≠ some (.failed (.write text)) := by
    intro type payload after
    unfold startSend
    split <;> simp [ClientPc.result]
  cases op with
  | subscribe | unsubscribe => exact hsend _ _ _
  | acknowledge eventID =>
    show (startAcknowledge eventID).result ≠ _
    unfold startAcknowledge
    split
    · simp [ClientPc.result]
    · exact hsend _ _ _
  | ping => simp [ClientOp.start, ClientPc.result]
  | publishWithResult ctx event random =>
    show (startPublish ctx event random).result ≠ _
    unfold startPublish
    split
    · simp [ClientPc.result]
    · split <;> simp [ClientPc.result]

/-- `WriteFrame` refuses the PUBLISH frame for this event. -/
def Unwritable (event : Event) : Prop :=
  ∃ payload err, encodePublish event.message = .ok payload ∧
    writeFrame ⟨typePublish, payload⟩ = .error err

/-- Where the writes succeed, `PublishWithResult` returns the error of a write only for an
    event that does not fit in a frame. -/
theorem write_failed (h : Client.lts.Reach CallWrites log c)
    (hreg : .registered call ch event ∈ log) (ho : .returned call (.failed (.write text)) ∈ log) :
    Unwritable event := by
  refine h.induct_reach (P := fun log c => ∀ call pc ch event, c.calls call = some pc →
    pc.result = some (.failed (.write text)) → .registered call ch event ∈ log → Unwritable event)
    ?_ ?_ call _ ch event (returned_call h ho) rfl hreg
  · rintro _ rfl call pc ch event hpc
    cases hpc
  intro log c a c' os hr hinv hwrites hstep call pc ch event hpc hres hreg
  have hreply := reply_inv hr
  have heff := client_step_effect hstep
  rcases heff.cases_call call with
    ⟨hsame, -, -, hnot⟩ | ⟨op, -, -, hpc', -⟩ | ⟨b, pc', out, rfl, hpc', hm, hout, rfl⟩
  · -- a call that does not move has registered its channel before
    refine hinv call pc ch event (hsame ▸ hpc) hres ((List.mem_append.mp hreg).resolve_right ?_)
    intro ho
    obtain ⟨b, ha⟩ := heff.registered_call hreply.acknowledging ho
    exact hnot b ha
  · obtain rfl := Option.some.inj (hpc'.symm.trans hpc)
    exact absurd hres (start_not_writeFailed op text)
  · obtain rfl := Option.some.inj (hout.symm.trans hpc)
    have hbefore := hm.writeFailed hres
    have hlog : .registered call ch event ∈ log := by
      refine (List.mem_append.mp hreg).resolve_right fun ho => ?_
      have hobs := (List.mem_append.mp ho).resolve_right
        (Client.not_registered_returnObs call out.pc call ch event)
      obtain ⟨⟨ctx, rfl, -⟩, -⟩ := hm.registered hobs
      rcases hbefore with hpc | ⟨_, _, hpc, -⟩ <;> exact nomatch hpc
    rcases hbefore with hbefore | ⟨frame, after, rfl, rfl⟩
    · exact hinv call pc' ch event hpc' hbefore hlog
    · obtain ⟨err, hw⟩ := hwrites call text frame after rfl hpc'
      cases hreply.calls call _ hpc' with
      | plain _ hnone => exact absurd hlog (hnone ch event)
      | publish _ huniq hst =>
        obtain ⟨-, rfl⟩ := huniq ch event hlog
        cases hst with
        | write henc => exact ⟨_, err, henc, hw⟩

/-! ## What is sent -/

/-- The messages of the PUBLISH frames that the client has sent. -/
def sentPublishes (log : List ClientObs) : List PublishMessage :=
  (log.filterMap ClientObs.sent?).filterMap publishOf

@[simp] theorem sentPublishes_append (log os : List ClientObs) :
    sentPublishes (log ++ os) = sentPublishes log ++ sentPublishes os := by
  simp [sentPublishes]

/-- A call of `PublishWithResult` that has written its frame, or never will. -/
def ClientPc.past : ClientPc → Bool
  | .wait .. | .leave .. | .returned _ => true
  | _ => false

/-- A call that has written its frame does not write it again. -/
theorem CallMove.past (h : CallMove c call b pc out) (hpc : pc.past = true) :
    out.pc.past = true := by
  cases h <;> first | rfl | exact nomatch hpc

theorem ClientEffect.past (h : ClientEffect c a c' os) (hpc : c.calls call = some pc)
    (hpast : pc.past = true) :
    ∃ pc', c'.calls call = some pc' ∧ pc'.past = true := by
  rcases h.cases_call call with
    ⟨hsame, -⟩ | ⟨op, -, hnone, -⟩ | ⟨b, pc₀, out, -, hpc₀, hm, hpc', -⟩
  · exact ⟨pc, hsame.trans hpc, hpast⟩
  · exact nomatch hpc.symm.trans hnone
  · obtain rfl := Option.some.inj (hpc₀.symm.trans hpc)
    exact ⟨out.pc, hpc', hm.past hpast⟩

/-- A PUBLISH frame is sent by the call that has registered its event, in its one write. -/
theorem ClientEffect.sends (h : ClientEffect c a c' os) (hinv : c.ReplyInv log)
    (hm : m ∈ sentPublishes os) :
    ∃ call ch event pc pc', .registered call ch event ∈ log ∧ event.message = m ∧
      sentPublishes os = [m] ∧ c.calls call = some pc ∧ pc.past = false ∧
      c'.calls call = some pc' ∧ pc'.past = true := by
  have hret : ∀ call pc, (Client.returnObs call pc).filterMap ClientObs.sent? = [] := by
    intro call pc
    cases pc <;> rfl
  cases h with
  | @call call b pc out hpc hcm =>
    rw [sentPublishes, List.filterMap_append, hret, List.append_nil] at hm ⊢
    cases hcm with
    | @write frame after p hnet hw =>
      have hframe : publishOf frame = some m := by
        obtain ⟨f, hf, hpub⟩ := List.mem_filterMap.mp hm
        obtain rfl : f = frame := by simpa [ClientObs.sent?] using hf
        exact hpub
      obtain ⟨htype, hdec⟩ := publishOf_eq_some.mp hframe
      cases hinv.calls call _ hpc with
      | plain hplain =>
        cases after with
        | publish => cases hplain
        | _ => simp [ClientPc.plain, htype] at hplain
      | @publish ch event _ hreg _ hst =>
        cases hst with
        | write henc =>
          have hmsg : event.message = m := by
            rw [(decodePublish_ok_iff _ _).mpr henc] at hdec
            exact Except.ok.inj hdec
          refine ⟨call, ch, event, _, _, hreg, hmsg, ?_, hpc, rfl, Client.setCall_self _ _ _, rfl⟩
          simp [ClientObs.sent?, hframe]
    | _ => simp [ClientObs.sent?, Client.registerCall, List.filterMap_cons] at hm
  | readAcknowledge hr hcm =>
    have hplain := hinv.acknowledging _ hr
    cases hcm with
    | @write frame after =>
      obtain ⟨f, hf, hpub⟩ := List.mem_filterMap.mp hm
      obtain rfl : f = frame := by simpa [ClientObs.sent?] using hf
      have htype := (publishOf_eq_some.mp hpub).1
      cases after with
      | publish => cases hplain
      | _ => simp [ClientPc.plain, htype] at hplain
    | _ => simp [sentPublishes, ClientObs.sent?, Client.registerCall, List.filterMap_cons] at hm
  | dial => simp [sentPublishes, ClientObs.sent?, publishOf, typeConnect, typePublish] at hm
  | invoke => simp [sentPublishes, ClientObs.sent?, List.filterMap_cons, hret] at hm
  | _ => simp [sentPublishes, ClientObs.sent?, List.filterMap_cons] at hm

/-- Every PUBLISH frame was sent by a call that had registered its event. -/
theorem sent_inv (h : Client.lts.Reach G log c) (hm : m ∈ sentPublishes log) :
    ∃ call ch event pc, .registered call ch event ∈ log ∧ event.message = m ∧
      c.calls call = some pc ∧ pc.past = true := by
  refine h.induct_reach (P := fun log c => ∀ m ∈ sentPublishes log, ∃ call ch event pc,
    .registered call ch event ∈ log ∧ event.message = m ∧ c.calls call = some pc ∧
      pc.past = true) (by simp [sentPublishes]) ?_ m hm
  intro log c a c' os hr hinv _ hstep m hm
  have heff := client_step_effect hstep
  rw [sentPublishes_append, List.mem_append] at hm
  rcases hm with hold | hnew
  · obtain ⟨call, ch, event, pc, hreg, hmsg, hpc, hpast⟩ := hinv m hold
    obtain ⟨pc', hpc', hpast'⟩ := heff.past hpc hpast
    exact ⟨call, ch, event, pc', List.mem_append_left _ hreg, hmsg, hpc', hpast'⟩
  · obtain ⟨call, ch, event, _, pc', hreg, hmsg, -, -, -, hpc', hpast'⟩ :=
      heff.sends (reply_inv hr) hnew
    exact ⟨call, ch, event, pc', List.mem_append_left _ hreg, hmsg, hpc', hpast'⟩

/-- The IDs of the messages are pairwise distinct. -/
def DistinctIDs (log : List ClientObs) : Prop :=
  ∀ call call' ch ch' event event', .registered call ch event ∈ log →
    .registered call' ch' event' ∈ log → event.id = event'.id → call = call'

/-- Calls with distinct IDs send messages with distinct IDs. -/
theorem sent_nodup (h : Client.lts.Reach G log c) (hd : DistinctIDs log) :
    ((sentPublishes log).map PublishMessage.id).Nodup := by
  refine h.induct_reach (P := fun log _ => DistinctIDs log →
    ((sentPublishes log).map PublishMessage.id).Nodup) (by simp [sentPublishes]) ?_ hd
  intro log c a c' os hr hinv _ hstep hd
  have hold := hinv fun call call' ch ch' event event' hreg hreg' =>
    hd call call' ch ch' event event' (List.mem_append_left _ hreg) (List.mem_append_left _ hreg')
  cases hos : sentPublishes os with
  | nil => rwa [sentPublishes_append, hos, List.append_nil]
  | cons m ms =>
    have hm : m ∈ sentPublishes os := by rw [hos]; exact .head _
    obtain ⟨call, ch, event, pc, _, hreg, rfl, hone, hpc, hpast, -⟩ :=
      (client_step_effect hstep).sends (reply_inv hr) hm
    rw [sentPublishes_append, hone, List.map_append, List.nodup_append]
    refine ⟨hold, by simp, ?_⟩
    -- an equal ID would be that of the same call, which has not written before
    intro id hid id' hid' heq
    obtain ⟨m', hm', rfl⟩ := List.mem_map.mp hid
    obtain rfl : id' = event.message.id := by simpa using hid'
    obtain ⟨call', ch', event', pc', hreg', rfl, hpc', hpast'⟩ := sent_inv hr hm'
    obtain rfl := hd call' call ch' ch event' event (List.mem_append_left _ hreg')
      (List.mem_append_left _ hreg) heq
    rw [hpc, Option.some.injEq] at hpc'
    rw [← hpc', hpast] at hpast'
    cases hpast'

end EventBus
