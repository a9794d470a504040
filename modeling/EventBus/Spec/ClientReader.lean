import EventBus.Spec.ClientStep
import EventBus.Spec.MessagesCorrect

/-!
# How readLoop ends

`readLoop` leaves its loop when it reads an ERROR frame, a frame it cannot decode or the end
of the stream, when the application closes the client, or with a SHUTDOWN frame. If only
the last can happen, the client closes its connection after it has put the redirect on its
channel.

## Key results

- `Client.ReaderInv.step`: a reader that meets none of the other ends leaves with the redirect
- `Client.ReaderInv.advances`: a reader with frames to read is not stuck
-/

namespace EventBus

variable {c : Client} {frame : Frame} {pc : ReadPc} {log : List ClientObs}

/-- The frame is no reason for `readLoop` to leave its loop, unless it is a SHUTDOWN frame. -/
structure Readable (frame : Frame) : Prop where
  error : frame.type ≠ typeError
  event : frame.type = typeEvent → ∃ event, decodeEvent frame.payload = .ok event
  ack : frame.type = typeAck → ∃ ack, decodeAck frame.payload = .ok ack
  shutdown : frame.type = typeShutdown → ∃ message, decodeShutdown frame.payload = .ok message

/-- The frame tells the client to go to `redirect`. -/
def Redirects (redirect : Bytes) (frame : Frame) : Prop :=
  frame.type = typeShutdown ∧ decodeShutdown frame.payload = .ok ⟨redirect⟩

/-- `readLoop` has left its loop. -/
def ReadPc.left : ReadPc → Bool
  | .closing | .closeShutdowns | .closeEvents | .finished => true
  | _ => false

/-- With a frame that it can read, `readLoop` goes on or has a redirect to put. -/
theorem Handled.readable (h : Handled c frame pc) (hf : Readable frame) : pc.left = false ∧
      (frame.type = typeShutdown → ∃ redirect, pc = .shutdown redirect) ∧
      ∀ redirect, pc = .shutdown redirect → Redirects redirect frame := by
  have hother : ∀ {type}, frame.type = type → type ≠ typeShutdown → frame.type ≠ typeShutdown :=
    fun heq hne => heq ▸ hne
  cases h with
  | @suppressed event htype =>
    refine ⟨?_, fun hsd => absurd hsd (hother htype (by decide)), fun redirect hpc => ?_⟩
    · rcases Client.readAcknowledgePc_cases (startAcknowledge event.id) with ⟨_, -, heq⟩ | heq
      · rw [heq]
        rfl
      · rw [heq]
        rfl
    · exact absurd hpc (Client.readAcknowledgePc_ne nofun nofun)
  | expose htype | reply htype | unknown htype =>
    exact ⟨rfl, fun hsd => absurd hsd (hother htype (by decide)), nofun⟩
  | error htype => exact absurd htype hf.error
  | shutdown htype hdec =>
    refine ⟨rfl, fun _ => ⟨_, rfl⟩, fun redirect hpc => ⟨htype, ?_⟩⟩
    obtain rfl := ReadPc.shutdown.inj hpc
    exact hdec
  | invalidEvent htype hdec =>
    obtain ⟨event, hok⟩ := hf.event htype
    rw [hok] at hdec
    cases hdec
  | invalidAck htype hdec =>
    obtain ⟨ack, hok⟩ := hf.ack htype
    rw [hok] at hdec
    cases hdec
  | invalidShutdown htype hdec =>
    obtain ⟨message, hok⟩ := hf.shutdown htype
    rw [hok] at hdec
    cases hdec
  | ignored _ _ _ htype => exact ⟨rfl, fun hsd => absurd hsd htype, nofun⟩

/-- Where the call of `Acknowledge` in `readLoop` stands. -/
inductive Acking : ClientPc → Prop
  | check {id payload : Bytes} : encodeAck ⟨id, ackDelivered, []⟩ = .ok payload →
      Acking (.check ⟨typeAck, payload⟩ (.acknowledge id))
  | write {id payload : Bytes} : encodeAck ⟨id, ackDelivered, []⟩ = .ok payload →
      Acking (.write ⟨typeAck, payload⟩ (.acknowledge id))
  | remember {id : Bytes} : Acking (.remember id)

theorem Handled.acking {ack : ClientPc} (h : Handled c frame pc) (hpc : pc = .acknowledge ack) :
    Acking ack := by
  cases h with
  | suppressed =>
    unfold startAcknowledge startSend at hpc
    split at hpc
    · cases hpc
    · split at hpc
      · cases hpc
      · obtain rfl := ReadPc.acknowledge.inj hpc
        exact .check ‹_›
  | _ => cases hpc

theorem CallMove.acking {call : ClientCall} {a : CallAction} {pc pc' : ClientPc} {out : CallOut}
    (h : CallMove c call a pc out) (hpc : Acking pc)
    (hpc' : Client.readAcknowledgePc out.pc = .acknowledge pc') : Acking pc' := by
  cases hpc with
  | check henc =>
    cases h with
    | closed => cases hpc'
    | check =>
      obtain rfl := ReadPc.acknowledge.inj hpc'
      exact .write henc
  | write =>
    cases h with
    | write =>
      obtain rfl := ReadPc.acknowledge.inj hpc'
      exact .remember
    | writeFails => cases hpc'
  | remember =>
    cases h with
    | remember => cases hpc'

/-- `readLoop` sends nothing but ACK frames. -/
theorem acking_inv {G : Client → ClientAction → Prop} (h : Client.lts.Reach G log c)
    {pc : ClientPc} (hpc : c.reader = .acknowledge pc) :
    Acking pc := by
  refine h.invariant (P := fun _ c => ∀ pc, c.reader = .acknowledge pc → Acking pc) ?_ ?_ pc hpc
  · rintro _ rfl pc hpc
    cases hpc
  intro log c a c' os ih _ hstep pc' hpc'
  cases client_step_effect hstep with
  | @dispatch frame => exact (c.handled frame).acking hpc'
  | readAcknowledge hpc hm => exact hm.acking (ih _ hpc) hpc'
  | @call _ _ _ out _ hm =>
    obtain ⟨_, _, _, _, heq⟩ := hm.client_eq
    have hreader : out.client.reader = c.reader := by rw [heq]
    exact ih pc' (hreader ▸ hpc')
  | peerSend | invoke | closeConn | receive | receiveShutdown => exact ih pc' hpc'
  | readClose | close => exact ih pc' hpc'
  | _ => cases hpc'

/-- What the position of `readLoop` says about the frames it has read. -/
structure Client.ReaderInv (log : List ClientObs) (c : Client) : Prop where
  done : c.isDone = true → c.reader.left = true
  left : c.reader.left = true → ∃ redirect, .redirected redirect ∈ log
  redirected : ∀ redirect, .redirected redirect ∈ log → c.reader.left = true ∧
    ∃ frame, Redirects redirect frame ∧ .read frame ∈ log
  shutdown : ∀ redirect, c.reader = .shutdown redirect →
    ∃ frame, Redirects redirect frame ∧ .read frame ∈ log
  handle : ∀ frame, c.reader = .handle frame → .read frame ∈ log
  told : ∀ frame, .read frame ∈ log → frame.type = typeShutdown →
    c.reader = .handle frame ∨ (∃ redirect, c.reader = .shutdown redirect) ∨ c.reader.left = true
  room : c.reader.left = false →
    c.shutdowns = .make 1 ∧ c.events.closed = false ∧ c.events.cap = 32
  acking : ∀ pc, c.reader = .acknowledge pc → Acking pc

section Step

variable {c' : Client} {a : ClientAction} {os : List ClientObs}

/-- A step that does not move `readLoop`. -/
theorem Client.ReaderInv.stay (h : c.ReaderInv log) (hreader : c'.reader = c.reader)
    (hdone : c'.isDone = true → c.reader.left = true) (hread : ∀ frame, .read frame ∉ os)
    (hredirected : ∀ redirect, .redirected redirect ∉ os)
    (hroom : c.reader.left = false →
      c'.shutdowns = .make 1 ∧ c'.events.closed = false ∧ c'.events.cap = 32) :
    c'.ReaderInv (log ++ os) := by
  have hold : ∀ {redirect}, (∃ frame, Redirects redirect frame ∧ ClientObs.read frame ∈ log) →
      ∃ frame, Redirects redirect frame ∧ ClientObs.read frame ∈ log ++ os :=
    fun ⟨frame, hf, ho⟩ => ⟨frame, hf, List.mem_append_left _ ho⟩
  constructor <;> rw [hreader]
  · exact hdone
  · intro hleft
    obtain ⟨redirect, ho⟩ := h.left hleft
    exact ⟨redirect, List.mem_append_left _ ho⟩
  · intro redirect ho
    obtain ⟨hleft, hf⟩ :=
      h.redirected redirect ((List.mem_append.mp ho).resolve_right (hredirected redirect))
    exact ⟨hleft, hold hf⟩
  · exact fun redirect hpc => hold (h.shutdown redirect hpc)
  · exact fun frame hpc => List.mem_append_left _ (h.handle frame hpc)
  · exact fun frame ho => h.told frame ((List.mem_append.mp ho).resolve_right (hread frame))
  · exact hroom
  · exact h.acking

/-- A step within the loop. -/
theorem Client.ReaderInv.loop (h : c.ReaderInv log) (hleft : c.reader.left = false)
    (hleft' : c'.reader.left = false) (hdone : c'.closing = c.closing)
    (hredirected : ∀ redirect, .redirected redirect ∉ os) (hshutdowns : c'.shutdowns = c.shutdowns)
    (hclosed : c'.events.closed = c.events.closed) (hcap : c'.events.cap = c.events.cap)
    (hshutdown : ∀ redirect, c'.reader = .shutdown redirect →
      ∃ frame, Redirects redirect frame ∧ .read frame ∈ log ++ os)
    (hhandle : ∀ frame, c'.reader = .handle frame → .read frame ∈ log ++ os)
    (htold : ∀ frame, .read frame ∈ log ++ os → frame.type = typeShutdown →
      c'.reader = .handle frame ∨ ∃ redirect, c'.reader = .shutdown redirect)
    (hacking : ∀ pc, c'.reader = .acknowledge pc → Acking pc) : c'.ReaderInv (log ++ os) where
  done hd := by
    have hwas : c.isDone = true := by rwa [Client.isDone, ← hdone]
    rw [h.done hwas] at hleft
    cases hleft
  left hl := by
    rw [hleft'] at hl
    cases hl
  redirected redirect ho := by
    have hold := h.redirected redirect
      ((List.mem_append.mp ho).resolve_right (hredirected redirect))
    rw [hold.1] at hleft
    cases hleft
  shutdown := hshutdown
  handle := hhandle
  told frame ho htype := by
    rcases htold frame ho htype with hpc | hpc
    · exact .inl hpc
    · exact .inr (.inl hpc)
  room _ := by
    rw [hshutdowns, hclosed, hcap]
    exact h.room hleft
  acking := hacking

/-- While `readLoop` is in its loop and has no SHUTDOWN frame at hand, it has read none. -/
theorem Client.ReaderInv.unread (h : c.ReaderInv log) (hleft : c.reader.left = false)
    (hhandle : ∀ frame, c.reader = .handle frame → frame.type ≠ typeShutdown)
    (hshutdown : ∀ redirect, c.reader ≠ .shutdown redirect) (ho : .read frame ∈ log) :
    frame.type ≠ typeShutdown := by
  intro htype
  rcases h.told frame ho htype with hpc | ⟨redirect, hpc⟩ | hpc
  · exact hhandle frame hpc htype
  · exact hshutdown redirect hpc
  · rw [hpc] at hleft
    cases hleft

/-- A step of `readLoop` back to `ReadFrame`, or on in its call of `Acknowledge`, that reads
    nothing. -/
theorem Client.ReaderInv.back (h : c.ReaderInv log) (hleft : c.reader.left = false)
    (hhandle : ∀ frame, c.reader ≠ .handle frame)
    (hshutdown : ∀ redirect, c.reader ≠ .shutdown redirect)
    (hpc : c'.reader = .reading ∨ ∃ pc, c'.reader = .acknowledge pc ∧ Acking pc)
    (hdone : c'.closing = c.closing) (hread : ∀ frame, .read frame ∉ os)
    (hredirected : ∀ redirect, .redirected redirect ∉ os) (hshutdowns : c'.shutdowns = c.shutdowns)
    (hclosed : c'.events.closed = c.events.closed) (hcap : c'.events.cap = c.events.cap) :
    c'.ReaderInv (log ++ os) := by
  have htold : ∀ frame, .read frame ∈ log ++ os → frame.type ≠ typeShutdown := fun frame ho =>
    h.unread hleft (fun frame hpc => absurd hpc (hhandle frame)) hshutdown
      ((List.mem_append.mp ho).resolve_right (hread frame))
  rcases hpc with hpc | ⟨pc, hpc, hack⟩
  · refine h.loop hleft (by rw [hpc]; rfl) hdone hredirected hshutdowns hclosed hcap ?_ ?_
      (fun frame ho htype => absurd htype (htold frame ho)) ?_ <;> rw [hpc] <;> exact nofun
  · refine h.loop hleft (by rw [hpc]; rfl) hdone hredirected hshutdowns hclosed hcap ?_ ?_
      (fun frame ho htype => absurd htype (htold frame ho)) ?_
    · rw [hpc]
      exact nofun
    · rw [hpc]
      exact nofun
    · intro pc' hpc'
      rw [hpc] at hpc'
      obtain rfl := ReadPc.acknowledge.inj hpc'
      exact hack

/-- A step of `readLoop` after its loop. -/
theorem Client.ReaderInv.after (h : c.ReaderInv log) (hleft : c.reader.left = true)
    (hleft' : c'.reader.left = true) (hredirected : ∀ redirect, .redirected redirect ∉ os) :
    c'.ReaderInv (log ++ os) where
  done _ := hleft'
  left _ := by
    obtain ⟨redirect, ho⟩ := h.left hleft
    exact ⟨redirect, List.mem_append_left _ ho⟩
  redirected redirect ho := by
    obtain ⟨-, frame, hf, hr⟩ :=
      h.redirected redirect ((List.mem_append.mp ho).resolve_right (hredirected redirect))
    exact ⟨hleft', frame, hf, List.mem_append_left _ hr⟩
  shutdown _ hpc := by
    rw [hpc] at hleft'
    cases hleft'
  handle _ hpc := by
    rw [hpc] at hleft'
    cases hleft'
  told _ _ _ := .inr (.inr hleft')
  room hl := by
    rw [hleft'] at hl
    cases hl
  acking _ hpc := by
    rw [hpc] at hleft'
    cases hleft'

/-- `readLoop` reads a frame. -/
theorem Client.ReaderInv.read {rest : List Frame} (h : c.ReaderInv log)
    (hpc : c.reader = .reading) :
    Client.ReaderInv (log ++ [.read frame]) { c with input := rest, reader := .handle frame } := by
  have hleft : c.reader.left = false := by
    rw [hpc]
    rfl
  refine h.loop hleft rfl rfl (by simp) rfl rfl rfl nofun (fun frame' hpc' => ?_)
    (fun frame' ho htype => ?_) nofun
  · obtain rfl := ReadPc.handle.inj hpc'
    exact List.mem_append_right _ List.mem_cons_self
  · rcases List.mem_append.mp ho with hold | hnew
    · exact absurd htype (h.unread hleft (by simp [hpc]) (by simp [hpc]) hold)
    · obtain rfl := ClientObs.read.inj (List.mem_singleton.mp hnew)
      exact .inl rfl

/-- The `switch` of `readLoop`, on a frame that it can read. -/
theorem Client.ReaderInv.dispatch (h : c.ReaderInv log) (hpc : c.reader = .handle frame)
    (hf : Readable frame) :
    Client.ReaderInv (log ++ []) { c with reader := c.handleNext frame } := by
  have hleft : c.reader.left = false := by
    rw [hpc]
    rfl
  have hhandled := c.handled frame
  obtain ⟨hleft', htold, hredirects⟩ := hhandled.readable hf
  have hread : .read frame ∈ log ++ [] := List.mem_append_left _ (h.handle frame hpc)
  refine h.loop hleft hleft' rfl (by simp) rfl rfl rfl
    (fun redirect hpc' => ⟨frame, hredirects redirect hpc', hread⟩)
    (fun _ hpc' => absurd hpc' hhandled.ne_handle) (fun frame' ho htype => ?_) (fun pc hpc' => ?_)
  · rw [List.append_nil] at ho
    rcases h.told frame' ho htype with heq | ⟨redirect, heq⟩ | hl
    · rw [hpc] at heq
      obtain rfl := ReadPc.handle.inj heq
      exact .inr (htold htype)
    · exact nomatch hpc.symm.trans heq
    · rw [hl] at hleft
      cases hleft
  · exact hhandled.acking hpc'

/-- `readLoop` puts the redirect on the channel. -/
theorem Client.ReaderInv.redirect {redirect : Bytes} {shutdowns : Chan Bytes}
    (h : c.ReaderInv log) (hpc : c.reader = .shutdown redirect) :
    Client.ReaderInv (log ++ [.redirected redirect])
      { c with shutdowns := shutdowns, reader := .closing } where
  done _ := rfl
  left _ := ⟨redirect, List.mem_append_right _ List.mem_cons_self⟩
  redirected redirect' ho := by
    refine ⟨rfl, ?_⟩
    rcases List.mem_append.mp ho with hold | hnew
    · obtain ⟨hleft, -⟩ := h.redirected redirect' hold
      rw [hpc] at hleft
      cases hleft
    · obtain rfl := ClientObs.redirected.inj (List.mem_singleton.mp hnew)
      obtain ⟨frame, hf, hr⟩ := h.shutdown _ hpc
      exact ⟨frame, hf, List.mem_append_left _ hr⟩
  shutdown := nofun
  handle := nofun
  told _ _ _ := .inr (.inr rfl)
  room := nofun
  acking := nofun

/-- The `select`s of `readLoop` do not see `c.done` closed before `readLoop` closes it. -/
theorem Client.ReaderInv.not_done (h : c.ReaderInv log) (hleft : c.reader.left = false) :
    c.isDone = false := by
  cases hd : c.isDone with
  | true => rw [← h.done hd, hleft]
  | false => rfl

theorem Client.netClosed_of_not_done (c : Client) (h : c.isDone = false) : c.netClosed = false := by
  unfold Client.isDone at h
  unfold Client.netClosed
  split at h
  · rename_i hfresh
    rw [hfresh]
  · cases h

/-- If the application does not close the client, reading does not fail and every frame can be
    read, `readLoop` leaves its loop with a redirect. -/
theorem Client.ReaderInv.step (h : c.ReaderInv log) (heff : ClientEffect c a c' os)
    (hclose : a ≠ .close) (hfails : a ≠ .readFails)
    (hread : ∀ frame, c.reader = .handle frame → Readable frame) : c'.ReaderInv (log ++ os) := by
  cases heff with
  | peerSend => exact h.stay rfl h.done (by simp) (by simp) h.room
  | dial hpc =>
    exact h.back (by rw [hpc]; rfl) (by simp [hpc]) (by simp [hpc]) (.inl rfl) rfl (by simp)
      (by simp) rfl rfl rfl
  | invoke => exact h.stay rfl h.done (by simp) (by simp) h.room
  | @call call _ _ out _ hm =>
    obtain ⟨_, _, _, _, heq⟩ := hm.client_eq
    have hobs : ∀ o, o ∈ out.obs ++ Client.returnObs call out.pc →
        (∀ frame, o ≠ .read frame) ∧ ∀ redirect, o ≠ .redirected redirect := by
      intro o ho
      rcases List.mem_append.mp ho with ho | ho
      · rcases hm.mem_obs ho with ⟨_, rfl⟩ | ⟨_, _, rfl⟩ <;> exact ⟨nofun, nofun⟩
      · obtain ⟨_, -, rfl⟩ := Client.mem_returnObs.mp ho
        exact ⟨nofun, nofun⟩
    have hdone : (out.client.setCall call out.pc).isDone = c.isDone := by
      rw [heq]
      rfl
    refine h.stay ?_ (hdone ▸ h.done) (fun frame ho => (hobs _ ho).1 frame rfl)
      (fun redirect ho => (hobs _ ho).2 redirect rfl) ?_
    · rw [heq]
      rfl
    · rw [heq]
      exact h.room
  | read _ hpc => exact h.read hpc
  | readFails => exact absurd rfl hfails
  | @dispatch frame hpc => exact h.dispatch hpc (hread frame hpc)
  | @readAcknowledge _ _ out hpc hm =>
    obtain ⟨_, _, _, _, heq⟩ := hm.client_eq
    have hobs : ∀ o ∈ out.obs,
        (∀ frame, o ≠ .read frame) ∧ ∀ redirect, o ≠ .redirected redirect := by
      intro o ho
      rcases hm.mem_obs ho with ⟨_, rfl⟩ | ⟨_, _, rfl⟩ <;> exact ⟨nofun, nofun⟩
    refine h.back (by rw [hpc]; rfl) (by simp [hpc]) (by simp [hpc]) ?_ (by rw [heq])
      (fun frame ho => (hobs _ ho).1 frame rfl) (fun redirect ho => (hobs _ ho).2 redirect rfl)
      (by rw [heq]) (by rw [heq]) (by rw [heq])
    rcases Client.readAcknowledgePc_cases out.pc with ⟨_, -, hr⟩ | hr
    · exact .inl hr
    · exact .inr ⟨out.pc, hr, hm.acking (h.acking _ hpc) hr⟩
  | put hpc hsend =>
    obtain ⟨hopen, -, -, hcap, hopen'⟩ := Chan.send_done hsend
    exact h.back (by rw [hpc]; rfl) (by simp [hpc]) (by simp [hpc]) (.inl rfl) rfl (by simp)
      (by simp) rfl (hopen'.trans hopen.symm) hcap
  | reply hpc =>
    exact h.back (by rw [hpc]; rfl) (by simp [hpc]) (by simp [hpc]) (.inl rfl) rfl (by simp)
      (by simp) rfl rfl rfl
  | shutdown hpc => exact h.redirect hpc
  | putDone hpc hd | shutdownDone hpc hd =>
    have hleft := h.done hd
    rw [hpc] at hleft
    cases hleft
  | readClose hpc =>
    have hleft : c.reader.left = true := by
      rw [hpc]
      rfl
    exact h.after hleft hleft (by simp)
  | readClosed hpc | closeShutdowns hpc | closeEvents hpc =>
    exact h.after (by rw [hpc]; rfl) rfl (by simp)
  | close => exact absurd rfl hclose
  | closeConn hclosing =>
    refine h.stay rfl (fun _ => h.done ?_) (by simp) (by simp) h.room
    unfold Client.isDone
    rw [hclosing]
  | receive hrecv =>
    obtain ⟨-, hcap, hclosed⟩ := Chan.receive_some hrecv
    refine h.stay rfl h.done (by simp) (by simp) fun hleft => ?_
    rw [hcap, hclosed]
    exact h.room hleft
  | receiveShutdown hrecv =>
    refine h.stay rfl h.done (by simp) (by simp) fun hleft => ?_
    -- the channel is empty until `readLoop` leaves
    have hbuf := (Chan.receive_some hrecv).1
    rw [(h.room hleft).1] at hbuf
    cases hbuf

end Step

/-! ## Progress -/

/-- The steps of `readLoop` in its loop, and of an application that receives the events. -/
def ClientAction.ofReader : ClientAction → Bool
  | .read | .dispatch | .readAcknowledge _ | .put | .reply | .shutdown | .receive => true
  | _ => false

/-- A bound on the steps of `readLoop` until it has handled its input. -/
def Client.toRead (c : Client) : Nat :=
  10 * c.input.length +
    match c.reader with
    | .handle _ => 5
    | .acknowledge (.check _ _) => 4
    | .acknowledge (.write _ _) => 3
    | .acknowledge (.remember _) => 2
    -- with a full channel the application has to receive first
    | .put _ => if c.events.buf.length < c.events.cap then 1 else 2
    | .reply _ _ | .shutdown _ => 1
    | _ => 0

/-- What a frame leads to is done in fewer steps than the frame itself is. -/
theorem Handled.toRead_lt (h : Handled c frame pc) :
    Client.toRead { c with reader := pc } < 10 * c.input.length + 5 := by
  have hacking : ∀ ack, pc = .acknowledge ack → Acking ack := fun ack => h.acking
  unfold Client.toRead
  cases pc with
  | handle => exact absurd rfl h.ne_handle
  | acknowledge ack => cases hacking ack rfl <;> simp
  | put =>
    dsimp only
    split <;> omega
  | _ => simp

/-- An event that has not been put yet can be put, after a receive if the channel is full. -/
theorem Client.ReaderInv.put_advances (h : c.ReaderInv log) {event : Event}
    (hpc : c.reader = .put event) :
    ∃ a c' os, c.step a = some (c', os) ∧ a.ofReader = true ∧ c'.reader ≠ .idle ∧
      (∀ frame, .sent frame ∉ os) ∧ c'.toRead < c.toRead := by
  obtain ⟨-, hopen, hcap⟩ := h.room (by rw [hpc]; rfl)
  by_cases hroom : c.events.buf.length < c.events.cap
  · obtain ⟨events, hsend⟩ := c.events.exists_send_done event hopen hroom
    refine ⟨.put, { c with events := events, reader := .reading }, [.put event], ?_, rfl, nofun,
      by simp, ?_⟩
    · simp [Client.step, Client.put, hpc, hsend, Client.stepped]
    · simp [Client.toRead, hpc, hroom]
  · have hne : c.events.buf ≠ [] := by
      intro hnil
      rw [hnil, hcap] at hroom
      exact hroom (by decide)
    obtain ⟨first, events, hrecv⟩ := c.events.exists_receive_some hne
    obtain ⟨hbuf, hcap', -⟩ := Chan.receive_some hrecv
    have hless : events.buf.length < events.cap := by
      have hfits := c.events.fits
      rw [hbuf, List.length_cons] at hfits
      omega
    refine ⟨.receive, { c with events := events }, [.received first], ?_, rfl, by simp [hpc],
      by simp, ?_⟩
    · simp [Client.step, Client.receive, hrecv, Client.stepped]
    · simp [Client.toRead, hpc, hroom, hless]

/-- The call of `Acknowledge` in `readLoop` goes on. -/
theorem Client.ReaderInv.acknowledge_advances (h : c.ReaderInv log) {pc : ClientPc}
    (hpc : c.reader = .acknowledge pc) :
    ∃ a c' os, c.step a = some (c', os) ∧ a.ofReader = true ∧ c'.reader ≠ .idle ∧
      (∀ frame, .sent frame ∈ os → ∃ bytes, writeFrame frame = .ok bytes) ∧
      c'.toRead < c.toRead := by
  have hleft : c.reader.left = false := by
    rw [hpc]
    rfl
  have hdone := h.not_done hleft
  have hnet := c.netClosed_of_not_done hdone
  cases h.acking pc hpc with
  | @check id payload =>
    refine ⟨.readAcknowledge .check,
      { c with reader := .acknowledge (.write ⟨typeAck, payload⟩ (.acknowledge id)) }, [], ?_, rfl,
      by simp, by simp, ?_⟩
    · simp [Client.step, Client.readAcknowledge, hpc, Client.callStep, hdone, Client.stepped,
        Client.readAcknowledgePc]
    · simp [Client.toRead, hpc]
  | @write id payload henc =>
    obtain ⟨bytes, hw⟩ := writeFrame_ack henc
    refine ⟨.readAcknowledge .write, { c with reader := .acknowledge (.remember id) },
      [.sent ⟨typeAck, payload⟩], ?_, rfl, by simp, by simp [hw], ?_⟩
    · simp [Client.step, Client.readAcknowledge, hpc, Client.callStep, hnet, hw, Client.stepped,
        Client.readAcknowledgePc, AfterClientSend.pc]
    · simp [Client.toRead, hpc]
  | @remember id =>
    obtain ⟨acked, ackedIDs, heq⟩ := c.rememberDelivery_eq id
    refine ⟨.readAcknowledge .remember,
      { c with acked := acked, ackedIDs := ackedIDs, reader := .reading }, [], ?_, rfl, by simp,
      by simp, ?_⟩
    · simp [Client.step, Client.readAcknowledge, hpc, Client.callStep, heq, Client.stepped,
        Client.readAcknowledgePc]
    · simp [Client.toRead, hpc]

/-- `readLoop` is not stuck before it has handled its input, if it does not wait for the
    channel of a call. -/
theorem Client.ReaderInv.advances (h : c.ReaderInv log) (hleft : c.reader.left = false)
    (hidle : c.reader ≠ .idle) (hinput : c.reader = .reading → c.input ≠ [])
    (hreply : ∀ ch ack, c.reader = .reply ch ack → ∃ chan chan', c.replies[ch]? = some chan ∧
      chan.send ack = .done chan') :
    ∃ a c' os, c.step a = some (c', os) ∧ a.ofReader = true ∧ c'.reader ≠ .idle ∧
      (∀ frame, .sent frame ∈ os → ∃ bytes, writeFrame frame = .ok bytes) ∧
      c'.toRead < c.toRead := by
  cases hpc : c.reader with
  | idle => exact absurd hpc hidle
  | reading =>
    -- `readLoop` runs, so that `c.done` is not closed
    have hnet := c.netClosed_of_not_done (h.not_done hleft)
    cases hin : c.input with
    | nil => exact absurd hin (hinput hpc)
    | cons frame rest =>
      refine ⟨.read, { c with input := rest, reader := .handle frame }, [.read frame], ?_, rfl,
        by simp, by simp, ?_⟩
      · simp [Client.step, Client.read, hpc, hin, hnet, Client.stepped]
      · simp only [Client.toRead, hpc, hin, List.length_cons]
        omega
  | handle frame =>
    refine ⟨.dispatch, { c with reader := c.handleNext frame }, [], ?_, rfl,
      (c.handled frame).ne_idle, by simp, ?_⟩
    · simp [Client.step, Client.dispatch, hpc, Client.stepped]
    · have hless := (c.handled frame).toRead_lt
      simpa only [Client.toRead, hpc] using hless
  | acknowledge => exact h.acknowledge_advances hpc
  | put =>
    obtain ⟨a, c', os, hstep, ha, hidle', hsent, hless⟩ := h.put_advances hpc
    exact ⟨a, c', os, hstep, ha, hidle', fun frame ho => absurd ho (hsent frame), hless⟩
  | reply ch ack =>
    obtain ⟨chan, chan', hch, hsend⟩ := hreply ch ack hpc
    refine ⟨.reply, { c with replies := c.replies.set ch chan', reader := .reading }, [], ?_, rfl,
      by simp, by simp, ?_⟩
    · simp [Client.step, Client.reply, hpc, hch, hsend, Client.stepped]
    · simp [Client.toRead, hpc]
  | shutdown redirect =>
    -- the buffer of `c.shutdowns` is empty until `readLoop` puts its only redirect
    have hroom := (h.room hleft).1
    obtain ⟨shutdowns, hsend⟩ := c.shutdowns.exists_send_done redirect (by rw [hroom]; rfl)
      (by rw [hroom]; decide)
    refine ⟨.shutdown, { c with shutdowns := shutdowns, reader := .closing },
      [.redirected redirect], ?_, rfl, by simp, by simp, ?_⟩
    · simp [Client.step, Client.shutdown, hpc, hsend, Client.stepped]
    · simp [Client.toRead, hpc]
  | closing | closeShutdowns | closeEvents | finished =>
    rw [hpc] at hleft
    cases hleft

end EventBus
