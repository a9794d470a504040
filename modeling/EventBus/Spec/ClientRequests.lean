import EventBus.Native.Session
import EventBus.Spec.ClientStep

/-!
# The frames that a client sends

A client sends a CONNECT frame when it dials. Every other frame it sends is built by one of
its methods and is one that `serve` decodes; only an empty topic passes the encoder and is
refused by the server.

## Key results

- `request_inv`: first a CONNECT frame, then requests that `serve` decodes
-/

namespace EventBus

/-- The requests of a client that `serve` can decode and that name a topic if they need one. -/
inductive RequestFrame : Frame → Prop
  | subscribe {topic payload : Bytes} : encodeTopic ⟨topic⟩ = .ok payload → topic ≠ [] →
      RequestFrame ⟨typeSubscribe, payload⟩
  | unsubscribe {topic payload : Bytes} : encodeTopic ⟨topic⟩ = .ok payload →
      RequestFrame ⟨typeUnsubscribe, payload⟩
  | ack {ack : AckMessage} {payload : Bytes} : encodeAck ack = .ok payload →
      RequestFrame ⟨typeAck, payload⟩
  | publish {event : Event} {payload : Bytes} : encodePublish event.message = .ok payload →
      event.topic ≠ [] → RequestFrame ⟨typePublish, payload⟩
  | ping : RequestFrame ⟨typePing, []⟩

/-- What a call is about to write is such a request. -/
def ClientPc.Requests : ClientPc → Prop
  | .register _ event => event.topic ≠ []
  | .check frame _ | .write frame _ => RequestFrame frame
  | _ => True

/-- The method is not called with an empty topic. -/
def ClientOp.namesTopic : ClientOp → Bool
  | .subscribe topic => topic ≠ []
  | .publishWithResult _ event _ => event.topic ≠ []
  | _ => true

/-- A method that encodes a request is about to write it. -/
theorem requests_startSend {type : FrameType} {payload : Except MsgErr Bytes}
    (h : ∀ p, payload = .ok p → RequestFrame ⟨type, p⟩) (after : AfterClientSend) :
    (startSend type payload after).Requests := by
  unfold startSend
  split
  · trivial
  · exact h _ rfl

theorem requests_startAcknowledge (id : Bytes) : (startAcknowledge id).Requests := by
  unfold startAcknowledge
  split
  · trivial
  · exact requests_startSend (fun _ => .ack) _

theorem Event.withIdempotencyKey_topic (event : Event) :
    event.withIdempotencyKey.topic = event.topic := by
  unfold Event.withIdempotencyKey
  split <;> rfl

theorem Event.withID_topic (event : Event) (random : Vector UInt8 16) :
    (event.withID random).topic = event.topic := by
  unfold Event.withID
  split <;> rfl

/-- A call that names a topic starts with a request, or with none. -/
theorem ClientOp.requests_start {op : ClientOp} (h : op.namesTopic = true) : op.start.Requests := by
  cases op with
  | subscribe topic =>
    have htopic : topic ≠ [] := by simpa [ClientOp.namesTopic] using h
    exact requests_startSend (fun _ henc => .subscribe henc htopic) _
  | unsubscribe => exact requests_startSend (fun _ => .unsubscribe) _
  | acknowledge id => exact requests_startAcknowledge id
  | publishWithResult ctx event random =>
    have htopic : event.topic ≠ [] := by simpa [ClientOp.namesTopic] using h
    show (startPublish ctx event random).Requests
    unfold startPublish
    split
    · show (event.withID _).withIdempotencyKey.topic ≠ []
      rwa [Event.withIdempotencyKey_topic, Event.withID_topic]
    · split
      · trivial
      · show event.withIdempotencyKey.topic ≠ []
        rwa [Event.withIdempotencyKey_topic]
  | ping => exact .ping

/-- A step of a call writes what the call was about to write. -/
theorem CallMove.requests {c : Client} {call : ClientCall} {a : CallAction} {pc : ClientPc}
    {out : CallOut} (h : CallMove c call a pc out) (hpc : pc.Requests) :
    out.pc.Requests ∧ ∀ frame, .sent frame ∈ out.obs → RequestFrame frame := by
  cases h with
  | register =>
    refine ⟨?_, by simp [Client.registerCall]⟩
    unfold Client.registerCall
    dsimp only
    split
    · trivial
    · exact .publish ‹_› hpc
  | check => exact ⟨hpc, by simp⟩
  | @write frame after =>
    refine ⟨by cases after <;> trivial, fun frame' ho => ?_⟩
    obtain rfl := ClientObs.sent.inj (List.mem_singleton.mp ho)
    exact hpc
  | @closed _ after | @writeFails _ after => exact ⟨by cases after <;> trivial, by simp⟩
  | _ => exact ⟨trivial, by simp⟩

/-- The frames that a client has sent: a CONNECT frame, then requests. -/
def Dialog : List Frame → Prop
  | [] => True
  | first :: rest => (∃ clientID payload, encodeConnect ⟨clientID⟩ = .ok payload ∧
      first = ⟨typeConnect, payload⟩) ∧ ∀ frame ∈ rest, RequestFrame frame

/-- Requests follow the CONNECT. -/
theorem Dialog.append {frames more : List Frame} (h : Dialog frames) (hne : frames ≠ [])
    (hmore : ∀ frame ∈ more, RequestFrame frame) : Dialog (frames ++ more) := by
  cases frames with
  | nil => exact absurd rfl hne
  | cons first rest =>
    refine ⟨h.1, fun frame hmem => ?_⟩
    rcases List.mem_append.mp hmem with hold | hnew
    · exact h.2 frame hold
    · exact hmore frame hnew

/-- What a client has sent and is about to send. -/
structure Client.RequestInv (log : List ClientObs) (c : Client) : Prop where
  idle : c.reader = .idle → log.filterMap ClientObs.sent? = [] ∧ ∀ call, c.calls call = none
  dialed : c.reader ≠ .idle → log.filterMap ClientObs.sent? ≠ []
  dialog : Dialog (log.filterMap ClientObs.sent?)
  calls : ∀ call pc, c.calls call = some pc → pc.Requests
  reader : ∀ pc, c.reader = .acknowledge pc → pc.Requests

/-- The methods of the client are not called with an empty topic. -/
def ClientAction.namesTopic : ClientAction → Bool
  | .invoke _ op => op.namesTopic
  | _ => true

section Step

variable {c c' : Client} {a : ClientAction} {log os : List ClientObs}

theorem readAcknowledgePc_requests {pc pc' : ClientPc} (h : pc.Requests)
    (hpc : Client.readAcknowledgePc pc = .acknowledge pc') : pc'.Requests := by
  rcases Client.readAcknowledgePc_cases pc with ⟨ret, -, hread⟩ | hack
  · rw [hread] at hpc
    cases hpc
  · rw [hack] at hpc
    obtain rfl := ReadPc.acknowledge.inj hpc
    exact h

/-- A step that sends requests and leaves `readLoop` started. -/
theorem Client.RequestInv.sends (h : c.RequestInv log) (hread : c.reader ≠ .idle)
    (hread' : c'.reader ≠ .idle) (hsent : ∀ frame, .sent frame ∈ os → RequestFrame frame)
    (hcalls : ∀ call pc, c'.calls call = some pc → pc.Requests)
    (hreader : ∀ pc, c'.reader = .acknowledge pc → pc.Requests) : c'.RequestInv (log ++ os) := by
  have hmore : ∀ frame ∈ os.filterMap ClientObs.sent?, RequestFrame frame := by
    intro frame hmem
    obtain ⟨o, ho, heq⟩ := List.mem_filterMap.mp hmem
    cases o with
    | sent frame' =>
      cases heq
      exact hsent _ ho
    | _ => cases heq
  refine ⟨fun hidle => absurd hidle hread', fun _ => ?_, ?_, hcalls, hreader⟩
  · rw [List.filterMap_append]
    exact List.append_ne_nil_of_left_ne_nil (h.dialed hread) _
  · rw [List.filterMap_append]
    exact h.dialog.append (h.dialed hread) hmore

/-- A step that sends nothing and moves neither `readLoop` nor a call. -/
theorem Client.RequestInv.quiet (h : c.RequestInv log) (hreader : c'.reader = c.reader)
    (hcalls : c'.calls = c.calls) (hsent : os.filterMap ClientObs.sent? = []) :
    c'.RequestInv (log ++ os) := by
  constructor
  · rw [hreader, hcalls, List.filterMap_append, hsent, List.append_nil]
    exact h.idle
  · rw [hreader, List.filterMap_append, hsent, List.append_nil]
    exact h.dialed
  · rw [List.filterMap_append, hsent, List.append_nil]
    exact h.dialog
  · rw [hcalls]
    exact h.calls
  · rw [hreader]
    exact h.reader

/-- A step of `readLoop` that sends nothing. -/
theorem Client.RequestInv.reads {pc : ReadPc} (h : c.RequestInv log) (hread : c.reader = pc)
    (hpc : pc ≠ .idle) (hread' : c'.reader ≠ .idle) (hcalls : c'.calls = c.calls)
    (hsent : ∀ frame, .sent frame ∉ os)
    (hreader : ∀ pc, c'.reader = .acknowledge pc → pc.Requests) : c'.RequestInv (log ++ os) := by
  refine h.sends (hread ▸ hpc) hread' (fun frame ho => absurd ho (hsent frame)) ?_ hreader
  rw [hcalls]
  exact h.calls

/-- A step keeps to the dialog. -/
theorem Client.RequestInv.step (h : c.RequestInv log) (heff : ClientEffect c a c' os)
    (hnames : a.namesTopic = true) : c'.RequestInv (log ++ os) := by
  -- a call is made by a client that has dialed
  have hcalled : ∀ {call pc}, c.calls call = some pc → c.reader ≠ .idle := by
    intro call pc hpc hidle
    rw [(h.idle hidle).2 call] at hpc
    cases hpc
  cases heff with
  | peerSend | closeConn | receive | receiveShutdown | close => exact h.quiet rfl rfl rfl
  | readClose hread => exact h.quiet rfl rfl rfl
  | @dial clientID payload hread henc =>
    obtain ⟨hnone, hcalls⟩ := h.idle hread
    have hsent : (log ++ [ClientObs.sent ⟨typeConnect, payload⟩]).filterMap ClientObs.sent? =
        [⟨typeConnect, payload⟩] := by
      rw [List.filterMap_append, hnone]
      rfl
    refine ⟨nofun, fun _ => ?_, ?_, h.calls, nofun⟩
    · rw [hsent]
      exact List.cons_ne_nil _ _
    · rw [hsent]
      exact ⟨⟨clientID, payload, henc, rfl⟩, nofun⟩
  | @invoke call op hread =>
    refine h.sends hread hread (by simp) (fun call' pc hpc => ?_) h.reader
    by_cases hcall : call' = call
    · subst hcall
      rw [Client.setCall_self, Option.some.injEq] at hpc
      exact hpc ▸ ClientOp.requests_start hnames
    · rw [Client.setCall_of_ne hcall] at hpc
      exact h.calls call' pc hpc
  | @call call b pc out hpc hm =>
    obtain ⟨hnext, hsent⟩ := hm.requests (h.calls call pc hpc)
    obtain ⟨_, _, _, _, heq⟩ := hm.client_eq
    have hreader : (out.client.setCall call out.pc).reader = c.reader := by
      show out.client.reader = _
      rw [heq]
    refine h.sends (hcalled hpc) (hreader ▸ hcalled hpc) (fun frame ho => ?_) ?_
      (hreader ▸ h.reader)
    · rcases List.mem_append.mp ho with ho | ho
      · exact hsent frame ho
      · simp at ho
    · intro call' pc' hpc'
      by_cases hcall : call' = call
      · subst hcall
        rw [Client.setCall_self, Option.some.injEq] at hpc'
        exact hpc' ▸ hnext
      · rw [Client.setCall_of_ne hcall, heq] at hpc'
        exact h.calls call' pc' hpc'
  | @readAcknowledge b pc out hread hm =>
    obtain ⟨hnext, hsent⟩ := hm.requests (h.reader pc hread)
    obtain ⟨_, _, _, _, heq⟩ := hm.client_eq
    refine h.sends (hread ▸ nofun) (Client.readAcknowledgePc_ne nofun nofun) hsent ?_
      (fun _ => readAcknowledgePc_requests hnext)
    show ∀ call pc, out.client.calls call = some pc → _
    rw [heq]
    exact h.calls
  | @dispatch frame hread =>
    refine h.reads hread nofun (c.handled frame).ne_idle rfl (by simp) (fun pc hpc => ?_)
    obtain ⟨event, -, -, -, rfl⟩ := (c.handled frame).acknowledge_inv hpc
    exact requests_startAcknowledge event.id
  | read _ hread => exact h.reads hread nofun nofun rfl (by simp) nofun
  | readFails hread | put hread | reply hread | shutdown hread | putDone hread | shutdownDone hread
  | readClosed hread | closeShutdowns hread | closeEvents hread =>
    exact h.reads hread nofun nofun rfl (by simp) nofun

end Step

/-- A client sends a CONNECT frame first, and then requests that `serve` decodes. -/
theorem request_inv {G : Client → ClientAction → Prop} {log : List ClientObs} {c : Client}
    (h : Client.lts.Reach G log c) (hnames : ∀ c a, G c a → a.namesTopic = true) :
    c.RequestInv log := by
  refine h.invariant (P := fun log c => c.RequestInv log) ?_ ?_
  · rintro _ rfl
    exact ⟨fun _ => ⟨rfl, fun _ => rfl⟩, fun hne => absurd rfl hne, trivial, nofun, nofun⟩
  · exact fun log c a c' os ih hg hstep => ih.step (client_step_effect hstep) (hnames c a hg)

end EventBus
