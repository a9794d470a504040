import EventBus.Native.Client

/-!
# What a step of the client can do

`CallMove c call a pc out` lists the steps of a call of a method that stands at `pc`, and
`ClientEffect c a c' os` those of the client. Invariants are proved by cases on these
relations and never unfold `Client.step`.

## Key results

- `client_step_effect`: every step of the client is one of the effects
-/

namespace EventBus

variable {c c' : Client} {call call' : ClientCall} {pc : ClientPc} {a : CallAction}
  {out : CallOut} {op : ClientOp} {os log : List ClientObs} {frame : Frame} {o : ClientObs}
  {G : Client → ClientAction → Prop}

/-- Every step a call of a method can take. -/
inductive CallMove (c : Client) (call : ClientCall) : CallAction → ClientPc → CallOut → Prop
  | register {ctx : Ctx} {event : Event} :
      CallMove c call .register (.register ctx event) (c.registerCall call ctx event)
  | closed {frame : Frame} {after : AfterClientSend} : c.isDone = true →
      CallMove c call .check (.check frame after) ⟨c, after.failed .closed, []⟩
  | check {frame : Frame} {after : AfterClientSend} : c.isDone = false →
      CallMove c call .check (.check frame after) ⟨c, .write frame after, []⟩
  | write {frame : Frame} {after : AfterClientSend} {p : Bytes} : c.netClosed = false →
      writeFrame frame = .ok p →
      CallMove c call .write (.write frame after) ⟨c, after.pc, [.sent frame]⟩
  | writeFails {frame : Frame} {after : AfterClientSend} {text : Bytes} :
      CallMove c call (.writeFails text) (.write frame after) ⟨c, after.failed (.write text), []⟩
  | acknowledged {ctx : Ctx} {id : Bytes} {ch : ReplyChan} {acknowledged : Chan AckMessage}
      {acknowledged' : Chan AckMessage} {ack : AckMessage} :
      c.replies[ch]? = some acknowledged →
      acknowledged.receive = .done (some ack, acknowledged') →
      CallMove c call .acknowledged (.wait ctx id ch)
        ⟨{ c with replies := c.replies.set ch acknowledged' }, .leave id (publishResult ack), []⟩
  | ctxDone {ctx : Ctx} {id : Bytes} {ch : ReplyChan} {err : CtxErr} : ctx.ends err = true →
      CallMove c call (.ctxDone err) (.wait ctx id ch) ⟨c, .leave id (.failed (.ctx err)), []⟩
  | clientDone {ctx : Ctx} {id : Bytes} {ch : ReplyChan} : c.isDone = true →
      CallMove c call .clientDone (.wait ctx id ch) ⟨c, .leave id (.failed .closed), []⟩
  | remember {eventID : Bytes} :
      CallMove c call .remember (.remember eventID) ⟨c.rememberDelivery eventID, .returned .ok, []⟩
  | leave {id : Bytes} {ret : ClientRet} :
      CallMove c call .leave (.leave id ret)
        ⟨{ c with pending := c.pending.erase id }, .returned ret, []⟩

@[simp] theorem Client.setCall_self (c : Client) (call : ClientCall) (pc : ClientPc) :
    (c.setCall call pc).calls call = some pc := by
  simp [Client.setCall]

theorem Client.setCall_of_ne (h : call' ≠ call) :
    (c.setCall call pc).calls call' = c.calls call' := by
  simp [Client.setCall, h]

/-- `rememberDelivery` changes nothing but the IDs it remembers. -/
theorem Client.rememberDelivery_eq (c : Client) (eventID : Bytes) :
    ∃ acked ackedIDs, c.rememberDelivery eventID =
      { c with acked := acked, ackedIDs := ackedIDs } := by
  unfold Client.rememberDelivery
  split
  · exact ⟨c.acked, c.ackedIDs, rfl⟩
  · split
    · split
      · exact ⟨_, _, rfl⟩
      · exact ⟨_, _, rfl⟩
    · exact ⟨c.acked, c.ackedIDs, rfl⟩

/-- Every step of a call is one of the moves. -/
theorem callStep_move (h : c.callStep call pc a = some out) : CallMove c call a pc out := by
  unfold Client.callStep at h
  split at h
  · cases h
    exact .register
  · split at h
    · cases h
      exact .closed ‹_›
    · rename_i hopen
      cases h
      exact .check (by simpa using hopen)
  · split at h
    · cases h
    rename_i hnet
    split at h
    · cases h
      exact .write (by simpa using hnet) ‹_›
    · cases h
  · cases h
    exact .writeFails
  · split at h
    · rename_i hch
      split at h
      · cases h
        exact .acknowledged hch ‹_›
      · cases h
    · cases h
  · split at h
    · cases h
      exact .ctxDone ‹_›
    · cases h
  · split at h
    · cases h
      exact .clientDone ‹_›
    · cases h
  · cases h
    exact .remember
  · cases h
    exact .leave
  · cases h

/-- A call changes nothing of the client but what is pending and what is remembered. -/
theorem CallMove.client_eq (h : CallMove c call a pc out) :
    ∃ pending replies acked ackedIDs, out.client =
      { c with pending := pending, replies := replies, acked := acked, ackedIDs := ackedIDs } := by
  cases h with
  | @remember eventID =>
    obtain ⟨acked, ackedIDs, heq⟩ := c.rememberDelivery_eq eventID
    exact ⟨c.pending, c.replies, acked, ackedIDs, heq⟩
  | _ => exact ⟨_, _, _, _, rfl⟩

/-- Every change a step of the client can make, with the observations it reports. -/
inductive ClientEffect (c : Client) : ClientAction → Client → List ClientObs → Prop
  | peerSend {frame : Frame} :
      ClientEffect c (.peerSend frame) { c with input := c.input ++ [frame] } []
  | dial {clientID payload : Bytes} : c.reader = .idle → encodeConnect ⟨clientID⟩ = .ok payload →
      ClientEffect c (.dial clientID) { c with reader := .reading } [.sent ⟨typeConnect, payload⟩]
  | invoke {call : ClientCall} {op : ClientOp} : c.reader ≠ .idle → c.calls call = none →
      ClientEffect c (.invoke call op) (c.setCall call op.start)
        (.invoked call op :: Client.returnObs call op.start)
  | call {call : ClientCall} {a : CallAction} {pc : ClientPc} {out : CallOut} :
      c.calls call = some pc → CallMove c call a pc out →
      ClientEffect c (.call call a) (out.client.setCall call out.pc)
        (out.obs ++ Client.returnObs call out.pc)
  | read {frame : Frame} {rest : List Frame} : c.netClosed = false → c.reader = .reading →
      c.input = frame :: rest →
      ClientEffect c .read { c with input := rest, reader := .handle frame } [.read frame]
  | readFails : c.reader = .reading → ClientEffect c .readFails { c with reader := .closing } []
  | dispatch {frame : Frame} : c.reader = .handle frame →
      ClientEffect c .dispatch { c with reader := c.handleNext frame } []
  | readAcknowledge {a : CallAction} {pc : ClientPc} {out : CallOut} :
      c.reader = .acknowledge pc → CallMove c 0 a pc out →
      ClientEffect c (.readAcknowledge a)
        { out.client with reader := Client.readAcknowledgePc out.pc } out.obs
  | put {event : Event} {events : Chan Event} : c.reader = .put event →
      c.events.send event = .done events →
      ClientEffect c .put { c with events := events, reader := .reading } [.put event]
  | reply {ch : ReplyChan} {ack : AckMessage} {acknowledged acknowledged' : Chan AckMessage} :
      c.reader = .reply ch ack → c.replies[ch]? = some acknowledged →
      acknowledged.send ack = .done acknowledged' →
      ClientEffect c .reply
        { c with replies := c.replies.set ch acknowledged', reader := .reading } []
  | shutdown {redirect : Bytes} {shutdowns : Chan Bytes} : c.reader = .shutdown redirect →
      c.shutdowns.send redirect = .done shutdowns →
      ClientEffect c .shutdown { c with shutdowns := shutdowns, reader := .closing }
        [.redirected redirect]
  | putDone {event : Event} : c.reader = .put event → c.isDone = true →
      ClientEffect c .readDone { c with reader := .closing } []
  | shutdownDone {redirect : Bytes} : c.reader = .shutdown redirect → c.isDone = true →
      ClientEffect c .readDone { c with reader := .closing } []
  | readClose : c.reader = .closing → c.closing = .fresh →
      ClientEffect c .readClose { c with closing := .done } [.closed]
  | readClosed : c.reader = .closing → c.closing = .closed →
      ClientEffect c .readClose { c with reader := .closeShutdowns } []
  | closeShutdowns {shutdowns : Chan Bytes} : c.reader = .closeShutdowns →
      c.shutdowns.close = .done shutdowns →
      ClientEffect c .closeShutdowns { c with shutdowns := shutdowns, reader := .closeEvents } []
  | closeEvents {events : Chan Event} : c.reader = .closeEvents → c.events.close = .done events →
      ClientEffect c .closeEvents { c with events := events, reader := .finished } []
  | close : c.reader ≠ .idle → c.closing = .fresh →
      ClientEffect c .close { c with closing := .done } [.closed]
  | closeConn : c.closing = .done → ClientEffect c .closeConn { c with closing := .closed } []
  | receive {event : Event} {events : Chan Event} :
      c.events.receive = .done (some event, events) →
      ClientEffect c .receive { c with events := events } [.received event]
  | receiveShutdown {redirect : Bytes} {shutdowns : Chan Bytes} :
      c.shutdowns.receive = .done (some redirect, shutdowns) →
      ClientEffect c .receiveShutdown { c with shutdowns := shutdowns } []

/-- A step of a call changes the client and where the call stands. -/
private theorem calls_effect (h : c.stepCall call a = some (c', os)) :
    ClientEffect c (.call call a) c' os := by
  unfold Client.stepCall at h
  split at h
  · rename_i hpc
    split at h
    · rename_i hstep
      cases h
      exact .call hpc (callStep_move hstep)
    · cases h
  · cases h

/-- A method is called on a client that `Dial` has returned. -/
private theorem invoke_client_effect (h : c.invoke call op = some (c', os)) :
    ClientEffect c (.invoke call op) c' os := by
  unfold Client.invoke at h
  split at h
  · cases h
  · cases h
  · rename_i hnone hidle
    cases h
    exact .invoke (fun hr => hidle hr) hnone

/-- `Dial` writes the CONNECT frame and starts `readLoop`. -/
private theorem dial_effect {clientID : Bytes} (h : c.dial clientID = some (c', os)) :
    ClientEffect c (.dial clientID) c' os := by
  unfold Client.dial at h
  split at h
  · cases h
    exact .dial ‹_› ‹_›
  · cases h

/-- `ReadFrame` returns the next frame that has arrived. -/
private theorem read_effect (h : c.read = some (c', os)) : ClientEffect c .read c' os := by
  unfold Client.read at h
  split at h
  · cases h
  rename_i hnet
  split at h
  · cases h
    exact .read (by simpa using hnet) ‹_› ‹_›
  · cases h

/-- `ReadFrame` fails, and `readLoop` goes to its deferred calls. -/
private theorem readFails_effect (h : c.readFails = some (c', os)) :
    ClientEffect c .readFails c' os := by
  unfold Client.readFails at h
  split at h
  · cases h
    exact .readFails ‹_›
  · cases h

/-- `readLoop` decodes the frame in its hand. -/
private theorem dispatch_effect (h : c.dispatch = some (c', os)) :
    ClientEffect c .dispatch c' os := by
  unfold Client.dispatch at h
  split at h
  · cases h
    exact .dispatch ‹_›
  · cases h

/-- A step of the `Acknowledge` that `readLoop` calls for a remembered ID. -/
private theorem readAcknowledge_effect (h : c.readAcknowledge a = some (c', os)) :
    ClientEffect c (.readAcknowledge a) c' os := by
  unfold Client.readAcknowledge at h
  split at h
  · rename_i hpc
    split at h
    · rename_i hstep
      cases h
      exact .readAcknowledge hpc (callStep_move hstep)
    · cases h
  · cases h

/-- The event goes on `c.events` when there is room. -/
private theorem put_effect (h : c.put = some (c', os)) : ClientEffect c .put c' os := by
  unfold Client.put at h
  split at h
  · rename_i hpc
    split at h
    · cases h
      exact .put hpc ‹_›
    · cases h
  · cases h

/-- The answer goes to the call that waits for it. -/
private theorem reply_effect (h : c.reply = some (c', os)) : ClientEffect c .reply c' os := by
  unfold Client.reply at h
  split at h
  · rename_i hpc
    split at h
    · rename_i hch
      split at h
      · cases h
        exact .reply hpc hch ‹_›
      · cases h
    · cases h
  · cases h

/-- The redirect goes on `c.shutdowns`, and `readLoop` ends. -/
private theorem shutdown_effect (h : c.shutdown = some (c', os)) :
    ClientEffect c .shutdown c' os := by
  unfold Client.shutdown at h
  split at h
  · rename_i hpc
    split at h
    · cases h
      exact .shutdown hpc ‹_›
    · cases h
  · cases h

/-- `c.done` ends a `select` in which `readLoop` waits. -/
private theorem readDone_effect (h : c.readDone = some (c', os)) :
    ClientEffect c .readDone c' os := by
  unfold Client.readDone at h
  split at h
  · split at h
    · cases h
      exact .putDone ‹_› ‹_›
    · cases h
  · split at h
    · cases h
      exact .shutdownDone ‹_› ‹_›
    · cases h
  · cases h

/-- The deferred `c.Close`: the first one to come closes `c.done`, and the others wait. -/
private theorem readClose_effect (h : c.readClose = some (c', os)) :
    ClientEffect c .readClose c' os := by
  unfold Client.readClose at h
  split at h
  · cases h
    exact .readClose ‹_› ‹_›
  · cases h
    exact .readClosed ‹_› ‹_›
  · cases h

/-- `readLoop` closes `c.shutdowns`. -/
private theorem closeShutdowns_effect (h : c.closeShutdowns = some (c', os)) :
    ClientEffect c .closeShutdowns c' os := by
  unfold Client.closeShutdowns at h
  split at h
  · cases h
    exact .closeShutdowns ‹_› ‹_›
  · cases h

/-- `readLoop` closes `c.events`, its last step. -/
private theorem closeEvents_client_effect (h : c.closeEvents = some (c', os)) :
    ClientEffect c .closeEvents c' os := by
  unfold Client.closeEvents at h
  split at h
  · cases h
    exact .closeEvents ‹_› ‹_›
  · cases h

/-- The application calls `Close`. -/
private theorem close_client_effect (h : c.close = some (c', os)) :
    ClientEffect c .close c' os := by
  unfold Client.close at h
  split at h
  · cases h
  · rename_i hfresh hidle
    cases h
    exact .close (fun hr => hidle hr) hfresh
  · cases h

/-- `Close` has closed `c.done` and closes the TCP connection. -/
private theorem closeConn_client_effect (h : c.closeConn = some (c', os)) :
    ClientEffect c .closeConn c' os := by
  unfold Client.closeConn at h
  split at h
  · cases h
    exact .closeConn ‹_›
  · cases h

/-- The application receives an event. -/
private theorem receive_client_effect (h : c.receive = some (c', os)) :
    ClientEffect c .receive c' os := by
  unfold Client.receive at h
  split at h
  · cases h
    exact .receive ‹_›
  · cases h

/-- The application receives a redirect. -/
private theorem receiveShutdown_effect (h : c.receiveShutdown = some (c', os)) :
    ClientEffect c .receiveShutdown c' os := by
  unfold Client.receiveShutdown at h
  split at h
  · cases h
    exact .receiveShutdown ‹_›
  · cases h

/-- Every step of the client is one of the effects. -/
theorem client_step_effect {a : ClientAction} (h : c.step a = some (c', os)) :
    ClientEffect c a c' os := by
  cases a with
  | peerSend =>
    cases h
    exact .peerSend
  | dial => exact dial_effect h
  | invoke => exact invoke_client_effect h
  | call => exact calls_effect h
  | read => exact read_effect h
  | readFails => exact readFails_effect h
  | dispatch => exact dispatch_effect h
  | readAcknowledge => exact readAcknowledge_effect h
  | put => exact put_effect h
  | reply => exact reply_effect h
  | shutdown => exact shutdown_effect h
  | readDone => exact readDone_effect h
  | readClose => exact readClose_effect h
  | closeShutdowns => exact closeShutdowns_effect h
  | closeEvents => exact closeEvents_client_effect h
  | close => exact close_client_effect h
  | closeConn => exact closeConn_client_effect h
  | receive => exact receive_client_effect h
  | receiveShutdown => exact receiveShutdown_effect h

/-! ## A frame in the reader's hand -/

/-- Every way in which `readLoop` goes on with a frame. -/
inductive Handled (c : Client) (frame : Frame) : ReadPc → Prop
  | suppressed {event : Event} : frame.type = typeEvent → decodeEvent frame.payload = .ok event →
      c.wasDelivered event.id = true →
      Handled c frame (Client.readAcknowledgePc (startAcknowledge event.id))
  | expose {event : Event} : frame.type = typeEvent → decodeEvent frame.payload = .ok event →
      c.wasDelivered event.id = false → Handled c frame (.put event)
  | reply {ack : AckMessage} {ch : ReplyChan} : frame.type = typeAck →
      decodeAck frame.payload = .ok ack → c.pending.lookup ack.id = some ch →
      Handled c frame (.reply ch ack)
  | unknown {ack : AckMessage} : frame.type = typeAck → decodeAck frame.payload = .ok ack →
      c.pending.lookup ack.id = none → Handled c frame .reading
  | error : frame.type = typeError → Handled c frame .closing
  | shutdown {message : ShutdownMessage} : frame.type = typeShutdown →
      decodeShutdown frame.payload = .ok message → Handled c frame (.shutdown message.redirect)
  | invalidEvent {err : MsgErr} : frame.type = typeEvent →
      decodeEvent frame.payload = .error err → Handled c frame .closing
  | invalidAck {err : MsgErr} : frame.type = typeAck → decodeAck frame.payload = .error err →
      Handled c frame .closing
  | invalidShutdown {err : MsgErr} : frame.type = typeShutdown →
      decodeShutdown frame.payload = .error err → Handled c frame .closing
  | ignored : frame.type ≠ typeEvent → frame.type ≠ typeAck → frame.type ≠ typeError →
      frame.type ≠ typeShutdown → Handled c frame .reading

/-- `readLoop` goes on with every frame in one of these ways. -/
theorem Client.handled (c : Client) (frame : Frame) : Handled c frame (c.handleNext frame) := by
  unfold Client.handleNext
  split
  · split
    · exact .invalidEvent ‹_› ‹_›
    · split
      · exact .suppressed ‹_› ‹_› ‹_›
      · rename_i hnew
        exact .expose ‹_› ‹_› (by simpa using hnew)
  split
  · split
    · exact .invalidAck ‹_› ‹_›
    · split
      · exact .unknown ‹_› ‹_› ‹_›
      · exact .reply ‹_› ‹_› ‹_›
  split
  · exact .error ‹_›
  split
  · split
    · exact .invalidShutdown ‹_› ‹_›
    · exact .shutdown ‹_› ‹_›
  · exact .ignored ‹_› ‹_› ‹_› ‹_›

/-- Where the call of `Acknowledge` in `readLoop` stands. -/
theorem Client.readAcknowledgePc_cases (pc : ClientPc) :
    (∃ ret, pc = .returned ret ∧ Client.readAcknowledgePc pc = .reading) ∨
      Client.readAcknowledgePc pc = .acknowledge pc := by
  cases pc with
  | returned ret => exact .inl ⟨ret, rfl, rfl⟩
  | _ => exact .inr rfl

/-- `readLoop` is in `Acknowledge` or back at `ReadFrame`. -/
theorem Client.readAcknowledgePc_ne {r : ReadPc} (hread : r ≠ .reading)
    (hack : ∀ ack, r ≠ .acknowledge ack) : Client.readAcknowledgePc pc ≠ r := by
  rcases Client.readAcknowledgePc_cases pc with ⟨_, -, heq⟩ | heq
  · exact heq ▸ hread.symm
  · exact heq ▸ (hack pc).symm

theorem Handled.ne_handle {frame' : Frame} {pc : ReadPc} (h : Handled c frame pc) :
    pc ≠ .handle frame' := by
  cases h with
  | suppressed => exact Client.readAcknowledgePc_ne nofun nofun
  | _ => exact nofun

theorem Handled.ne_idle {pc : ReadPc} (h : Handled c frame pc) :
    pc ≠ .idle := by
  cases h with
  | suppressed => exact Client.readAcknowledgePc_ne nofun nofun
  | _ => exact nofun

/-- `readLoop` answers a call only for an ACK frame with the ID that the call has registered. -/
theorem Handled.reply_inv {ch : ReplyChan} {ack : AckMessage} {pc : ReadPc}
    (h : Handled c frame pc) (hpc : pc = .reply ch ack) :
    frame.type = typeAck ∧ decodeAck frame.payload = .ok ack ∧
      c.pending.lookup ack.id = some ch := by
  cases h with
  | suppressed => exact absurd hpc (Client.readAcknowledgePc_ne nofun nofun)
  | reply htype hdec hl =>
    obtain ⟨rfl, rfl⟩ := ReadPc.reply.inj hpc
    exact ⟨htype, hdec, hl⟩
  | _ => cases hpc

/-- `readLoop` answers an event by itself if its ID is remembered. -/
theorem Handled.acknowledge_inv {pc : ReadPc} {ack : ClientPc} (h : Handled c frame pc)
    (hpc : pc = .acknowledge ack) :
    ∃ event, frame.type = typeEvent ∧ decodeEvent frame.payload = .ok event ∧
      c.wasDelivered event.id = true ∧ ack = startAcknowledge event.id := by
  cases h with
  | @suppressed event htype hdec hdel =>
    rcases Client.readAcknowledgePc_cases (startAcknowledge event.id) with ⟨_, -, heq⟩ | heq
    · rw [heq] at hpc
      cases hpc
    · rw [heq] at hpc
      exact ⟨event, htype, hdec, hdel, (ReadPc.acknowledge.inj hpc).symm⟩
  | _ => cases hpc

/-- An event passes the filter if its ID is not remembered. -/
theorem Handled.put_inv {pc : ReadPc} {event : Event} (h : Handled c frame pc)
    (hpc : pc = .put event) :
    frame.type = typeEvent ∧ decodeEvent frame.payload = .ok event ∧
      c.wasDelivered event.id = false := by
  cases h with
  | suppressed => exact absurd hpc (Client.readAcknowledgePc_ne nofun nofun)
  | expose htype hdec hnew =>
    obtain rfl := ReadPc.put.inj hpc
    exact ⟨htype, hdec, hnew⟩
  | _ => cases hpc

/-! ## A step seen from a call -/

/-- A call is reported as returned when it gets there. -/
@[simp] theorem Client.mem_returnObs :
    o ∈ Client.returnObs call pc ↔ ∃ ret, pc = .returned ret ∧ o = .returned call ret := by
  cases pc <;> simp [Client.returnObs]

/-- A step of a call reports a frame or a channel, if anything. -/
theorem CallMove.mem_obs (h : CallMove c call a pc out) (ho : o ∈ out.obs) :
    (∃ frame, o = .sent frame) ∨ ∃ ch event, o = .registered call ch event := by
  cases h with
  | register =>
    rw [List.mem_singleton.mp ho]
    exact .inr ⟨_, _, rfl⟩
  | write =>
    rw [List.mem_singleton.mp ho]
    exact .inl ⟨_, rfl⟩
  | _ => cases ho

/-- A step of a call reports no invocation. -/
theorem CallMove.not_invoked (h : CallMove c call a pc out) (call' : ClientCall) (op : ClientOp) :
    .invoked call' op ∉ out.obs ++ Client.returnObs call out.pc := by
  intro ho
  rcases List.mem_append.mp ho with ho | ho
  · rcases h.mem_obs ho with ⟨_, heq⟩ | ⟨_, _, heq⟩ <;> exact nomatch heq
  · simp at ho

/-- A step of a call reports a result only for that call, as it returns it. -/
theorem CallMove.returned_obs (h : CallMove c call a pc out) {ret : ClientRet}
    (ho : .returned call' ret ∈ out.obs ++ Client.returnObs call out.pc) :
    call' = call ∧ out.pc = .returned ret := by
  rcases List.mem_append.mp ho with hobs | hret
  · rcases h.mem_obs hobs with ⟨_, heq⟩ | ⟨_, _, heq⟩ <;> exact nomatch heq
  · simpa [and_comm] using hret

/-- A step, seen from one call: others move, or it is invoked, or it moves. -/
theorem ClientEffect.cases_call {a : ClientAction} (h : ClientEffect c a c' os)
    (call : ClientCall) :
    (c'.calls call = c.calls call ∧ (∀ op, .invoked call op ∉ os) ∧
      (∀ ret, .returned call ret ∉ os) ∧ ∀ b, a ≠ .call call b) ∨
    (∃ op, a = .invoke call op ∧ c.calls call = none ∧ c'.calls call = some op.start ∧
      os = .invoked call op :: Client.returnObs call op.start) ∨
    ∃ b pc out, a = .call call b ∧ c.calls call = some pc ∧ CallMove c call b pc out ∧
      c'.calls call = some out.pc ∧ os = out.obs ++ Client.returnObs call out.pc := by
  cases h with
  | @invoke call' op _ hnone =>
    by_cases hcall : call = call'
    · subst hcall
      exact .inr (.inl ⟨op, rfl, hnone, Client.setCall_self _ _ _, rfl⟩)
    · exact .inl ⟨Client.setCall_of_ne hcall, by simp [hcall], by simp [hcall], nofun⟩
  | @call call' b pc out hpc hm =>
    by_cases hcall : call = call'
    · subst hcall
      exact .inr (.inr ⟨b, pc, out, rfl, hpc, hm, Client.setCall_self _ _ _, rfl⟩)
    · obtain ⟨_, _, _, _, heq⟩ := hm.client_eq
      exact .inl ⟨by rw [Client.setCall_of_ne hcall, heq], hm.not_invoked call,
        fun ret ho => hcall (hm.returned_obs ho).1,
        fun b' ha => hcall (ClientAction.call.inj ha).1.symm⟩
  | readAcknowledge _ hm =>
    obtain ⟨_, _, _, _, heq⟩ := hm.client_eq
    refine .inl ⟨by rw [heq], fun op ho => ?_, fun ret ho => ?_, nofun⟩ <;>
    · rcases hm.mem_obs ho with ⟨_, heq⟩ | ⟨_, _, heq⟩ <;> exact nomatch heq
  | _ => exact .inl ⟨rfl, by simp, by simp, nofun⟩

/-- The stages of a call: a property of where a call stands that holds at its start and that its
    steps keep. -/
theorem Client.call_stage {Q : List ClientObs → ClientPc → Prop} {call : ClientCall}
    {op : ClientOp} (hstart : ∀ log, Q log op.start)
    (hmore : ∀ log os pc, Q log pc → Q (log ++ os) pc)
    (hmove : ∀ log (c : Client) a pc out, CallMove c call a pc out → Q log pc →
      Q (log ++ (out.obs ++ Client.returnObs call out.pc)) out.pc)
    {G : Client → ClientAction → Prop} {log : List ClientObs} {c : Client}
    (h : Client.lts.Reach G log c) (ho : .invoked call op ∈ log) :
    ∃ pc, c.calls call = some pc ∧ Q log pc := by
  refine h.invariant (P := fun log c => .invoked call op ∈ log →
    ∃ pc, c.calls call = some pc ∧ Q log pc) (by simp) ?_ ho
  intro log c a c' os ih _ hstep ho
  rcases (client_step_effect hstep).cases_call call with
    ⟨hsame, hnot, -⟩ | ⟨op', -, hnone, hpc', rfl⟩ | ⟨b, pc, out, -, hpc, hm, hpc', rfl⟩
  · obtain ⟨pc, hpc, hst⟩ := ih ((List.mem_append.mp ho).resolve_right (hnot _))
    exact ⟨pc, hsame.trans hpc, hmore _ _ _ hst⟩
  · rcases List.mem_append.mp ho with hold | hnew
    · obtain ⟨pc, hpc, -⟩ := ih hold
      exact nomatch hnone.symm.trans hpc
    · obtain rfl : op = op' := by simpa using hnew
      exact ⟨_, hpc', hstart _⟩
  · obtain ⟨pc₀, hpc₀, hst⟩ := ih ((List.mem_append.mp ho).resolve_right (hm.not_invoked _ _))
    obtain rfl := Option.some.inj (hpc.symm.trans hpc₀)
    exact ⟨_, hpc', hmove _ _ _ _ _ hm hst⟩

/-- Every call has been invoked. -/
theorem Client.call_invoked (h : Client.lts.Reach G log c) (hpc : c.calls call = some pc) :
    ∃ op, .invoked call op ∈ log := by
  refine h.invariant (P := fun log c => ∀ pc, c.calls call = some pc →
    ∃ op, .invoked call op ∈ log) ?_ ?_ pc hpc
  · rintro _ rfl pc hpc
    cases hpc
  intro log c a c' os ih _ hstep pc' hpc'
  rcases (client_step_effect hstep).cases_call call with
    ⟨hsame, -⟩ | ⟨op, -, -, -, rfl⟩ | ⟨_, pc, _, -, hpc, -⟩
  · obtain ⟨op, ho⟩ := ih pc' (hsame ▸ hpc')
    exact ⟨op, List.mem_append_left _ ho⟩
  · exact ⟨op, List.mem_append_right _ List.mem_cons_self⟩
  · obtain ⟨op, ho⟩ := ih pc hpc
    exact ⟨op, List.mem_append_left _ ho⟩

end EventBus
