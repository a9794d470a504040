import EventBus.Spec.BrokerLog
import EventBus.Spec.MessagesCorrect
import EventBus.Spec.ServerCalls
import EventBus.Spec.ServerStep

/-!
# How serve answers a PUBLISH frame

`serve` handles the frames it reads one after the other. For a PUBLISH frame it calls the
broker and, once the call has returned, writes an ACK with the ID of the message. The
messages it publishes are therefore messages it has read, in this order, and the ACKs are
the answers to them, in this order.

## Key results

- `publishes_read`: the messages published are messages of the PUBLISH frames read, in order
- `answers_inv`: one ACK for each call of the broker that has returned, in order
- `ack_progress`: the ACK that is due can be written
-/

namespace EventBus

variable {L obs : List ConnObs} {message : PublishMessage} {call : CallId} {pc pc' : ServePc}
  {bus b : Option Action} {config : Config} {G : Server → ServerAction → Prop}
  {log : List ServerObs} {s : Server} {w w' : Bus} {os : List Obs}
  {inflight : List (PublishMessage × CallId)} {out : Out} {k : ConnId} {c : Connection}
  {ack : AckMessage} {payload : Bytes} {r : Ret}

/-! ## What is published -/

/-- The messages of the PUBLISH frames that `serve` has read. -/
def publishReads (L : List ConnObs) : List PublishMessage :=
  L.filterMap fun
    | .read frame => publishOf frame
    | _ => none

/-- The messages that `serve` has published, with the calls of the broker. -/
def publishings (L : List ConnObs) : List (PublishMessage × CallId) :=
  L.filterMap fun
    | .publishing message call => some (message, call)
    | _ => none

@[simp] theorem publishReads_append (L obs : List ConnObs) :
    publishReads (L ++ obs) = publishReads L ++ publishReads obs := List.filterMap_append

@[simp] theorem publishings_append (L obs : List ConnObs) :
    publishings (L ++ obs) = publishings L ++ publishings obs := List.filterMap_append

/-- The PUBLISH messages of the frames read. -/
theorem publishReads_eq (L : List ConnObs) :
    publishReads L = (L.filterMap ConnObs.read?).filterMap publishOf := by
  rw [List.filterMap_filterMap]
  refine List.filterMap_congr fun o _ => ?_
  cases o <;> rfl

theorem mem_publishings :
    (message, call) ∈ publishings L ↔ .publishing message call ∈ L := by
  simp only [publishings, List.mem_filterMap]
  constructor
  · rintro ⟨o, ho, heq⟩
    split at heq
    · cases heq
      exact ho
    · cases heq
  · intro ho
    exact ⟨_, ho, rfl⟩

/-- The message that `serve` has in hand. -/
def ServePc.publishing : ServePc → List PublishMessage
  | .handle frame => (publishOf frame).toList
  | .isDraining (.publish payload) | .isDrainingConn (.publish payload) _ =>
    (decodePublish payload).toOption.toList
  | .publishCall message => [message]
  | _ => []

theorem ServePc.Reports.publishing (h : pc.Reports) : pc.publishing = [] := by
  cases h <;> rfl

@[simp] theorem AfterSend.publishing_pc (after : AfterSend) : after.pc.publishing = [] :=
  after.reports_pc.publishing

@[simp] theorem publishing_sendError (text : Bytes) (after : AfterSend) :
    (sendError text after).publishing = [] := (reports_sendError text after).publishing

@[simp] theorem publishing_connectNext (frame : Frame) : (connectNext frame).publishing = [] :=
  (reports_connectNext frame).publishing

@[simp] theorem publishing_subscribeNext (payload : Bytes) :
    (subscribeNext payload).publishing = [] := by
  rcases subscribeNext_cases payload with h | ⟨_, -, h⟩
  · exact h.publishing
  · rw [h]
    rfl

@[simp] theorem publishing_publishReply (ack : AckMessage) :
    (publishReply ack).publishing = [] := by
  rcases publishReply_cases ack with h | ⟨_, -, h⟩
  · exact h.publishing
  · rw [h]
    rfl

/-- A PUBLISH payload is published at most once. -/
theorem publishing_publishNext (payload : Bytes) :
    ((publishNext payload).publishing).Sublist (decodePublish payload).toOption.toList := by
  rcases publishNext_cases payload with h | ⟨message, hdec, h⟩
  · rw [h.publishing]
    exact List.nil_sublist _
  · rw [h, hdec]
    exact .refl _

section Move

variable {a : ConnAction}

/-- `serve` publishes what is in its hand, and that once. -/
theorem ServeMove.publishes (h : ServeMove s c a pc pc' bus obs) :
    ((publishings obs).map Prod.fst ++ pc'.publishing).Sublist pc.publishing := by
  cases h with
  | publish htype =>
    simp only [ServePc.publishing, publishOf, htype, if_true]
    exact .refl _
  | @isDraining request => cases request <;> exact .refl _
  | publishAllowed => exact publishing_publishNext _
  | publishCall => exact .refl _
  | subscribe | ackInvalid | unsupported | publishDraining | subscribeError | publishReturn | send
  | sendReport | sendIgnore => simp [publishings]
  | _ => exact List.nil_sublist _

/-- One step: what is published or in hand afterwards was in hand, or has just been read. -/
theorem ConnMove.publishes (h : ConnMove s c a out) :
    ((publishings out.obs).map Prod.fst ++ out.conn.serve.publishing).Sublist
      (c.serve.publishing ++ publishReads out.obs) := by
  cases h with
  | serve hpc hm =>
    subst hpc
    exact hm.publishes.trans (List.sublist_append_left _ _)
  | connect => simp [publishings]
  | read =>
    show ((publishOf _).toList).Sublist (_ ++ [_].filterMap _)
    rw [List.filterMap_cons]
    refine List.Sublist.trans ?_ (List.sublist_append_right _ _)
    split <;> simp [*]
  | deliver _ hm => cases hm <;> exact List.sublist_append_left _ _
  | graceful _ hm => cases hm <;> exact List.sublist_append_left _ _
  | store | replaced | spawn | acknowledge | unsubscribe | abort => exact List.nil_sublist _
  | _ => exact List.sublist_append_left _ _

end Move

/-- The messages published are messages of the PUBLISH frames read, in order. -/
theorem publishes_read (h : (Server.lts config).Reach G log s) (k : ConnId) :
    ((publishings (connLog k log)).map Prod.fst).Sublist (publishReads (connLog k log)) := by
  have hinv : ∀ c, s.connections k = some c →
      ((publishings (connLog k log)).map Prod.fst ++ c.serve.publishing).Sublist
        (publishReads (connLog k log)) := by
    intro c hc
    refine Server.conn_induct h hc (I := fun L _ c =>
      ((publishings L).map Prod.fst ++ c.serve.publishing).Sublist (publishReads L))
      (fun _ => .slnil) ?_
    intro log s a s' os c c' obs b _ _ _ _ _ _ hch ih
    rw [publishings_append, publishReads_append, List.map_append]
    refine ih.through ?_
    cases hch with
    | move hm => exact hm.publishes
    | _ => exact List.sublist_append_left _ _
  cases hk : s.connections k with
  | none =>
    rw [connLog_eq_nil h hk]
    exact .slnil
  | some c => exact (List.sublist_append_left _ _).trans (hinv c hk)

/-! ## What is answered -/

/-- The payloads of the ACK frames that `serve` has written. -/
def acksWritten (L : List ConnObs) : List Bytes :=
  L.filterMap fun
    | .wrote .serve frame => if frame.type = typeAck then some frame.payload else none
    | _ => none

@[simp] theorem acksWritten_append (L obs : List ConnObs) :
    acksWritten (L ++ obs) = acksWritten L ++ acksWritten obs := List.filterMap_append

/-- A call of the broker for a PUBLISH frame, what it returned and the ACK for it. -/
structure Answer where
  message : PublishMessage
  call : CallId
  ret : Ret
  payload : Bytes

/-- The call has returned, and the ACK is the answer of `publish` to what it returned. -/
structure Answer.Valid (w : Bus) (a : Answer) : Prop where
  returned : w.calls a.call = some (.returned a.ret)
  result : a.ret = .published ∨ a.ret = .duplicate ∨ ∃ err, a.ret = .failed err
  encoded : encodeAck (publishAck a.message a.ret) = .ok a.payload

/-- The call of an answer stays returned. -/
theorem Answer.Valid.step {a : Answer} (h : a.Valid w) (hb : BusStep w b w' os) : a.Valid w' :=
  ⟨hb.returned h.returned, h.result, h.encoded⟩

/-- The text of every error of the broker fits in an ACK. -/
theorem Err.text_length (err : Err) : err.text.length ≤ maxStringSize := by
  cases err with
  | ctx err => cases err <;> decide
  | _ => decide

/-- The answer to a message that was decoded can be encoded. -/
theorem encodeAck_publishAck {p : Bytes} {m : PublishMessage} (hdec : decodePublish p = .ok m)
    (r : Ret) : ∃ payload, encodeAck (publishAck m r) = .ok payload := by
  rw [decodePublish_ok_iff, encodePublish_ok_iff] at hdec
  obtain ⟨id, _, _, _, _, hid, -⟩ := hdec
  have hack : ∀ status error, error.length ≤ maxStringSize →
      ∃ payload, encodeAck ⟨m.id, status, error⟩ = .ok payload := by
    intro status error hlen
    exact ⟨_, (encodeAck_ok_iff _ _).mpr
      ⟨id, _, hid, (writeString_ok_iff _ _).mpr ⟨hlen, rfl⟩, rfl⟩⟩
  unfold publishAck
  split
  · exact hack _ _ (Nat.zero_le _)
  · exact hack _ _ (Err.text_length _)
  · exact hack _ _ (Nat.zero_le _)

/-- `serve` has not yet written the ACK for a message. -/
def ServePc.answering : ServePc → Bool
  | .publishWait .. => true
  | .send frame _ => frame.type = typeAck
  | _ => false

theorem ServePc.Reports.answering (h : pc.Reports) : pc.answering = false := by
  cases h <;> rfl

@[simp] theorem AfterSend.answering_pc (after : AfterSend) : after.pc.answering = false :=
  after.reports_pc.answering

@[simp] theorem answering_sendError (text : Bytes) (after : AfterSend) :
    (sendError text after).answering = false := (reports_sendError text after).answering

@[simp] theorem answering_connectNext (frame : Frame) : (connectNext frame).answering = false :=
  (reports_connectNext frame).answering

@[simp] theorem answering_subscribeNext (payload : Bytes) :
    (subscribeNext payload).answering = false := by
  rcases subscribeNext_cases payload with h | ⟨_, -, h⟩
  · exact h.answering
  · rw [h]
    rfl

@[simp] theorem answering_publishNext (payload : Bytes) :
    (publishNext payload).answering = false := by
  rcases publishNext_cases payload with h | ⟨_, -, h⟩
  · exact h.answering
  · rw [h]
    rfl

/-- Where `serve` stands, and the message it has published and not answered. -/
inductive AnswerStage (w : Bus) : ServePc → List (PublishMessage × CallId) → Prop
  | wait {message : PublishMessage} {call : CallId} :
      AnswerStage w (.publishWait message call) [(message, call)]
  | send {a : Answer} : a.Valid w →
      AnswerStage w (.send ⟨typeAck, a.payload⟩ .report) [(a.message, a.call)]
  | none {pc : ServePc} : pc.answering = false → AnswerStage w pc []

/-- A step of the bus keeps the stage of an answer. -/
theorem AnswerStage.step (h : AnswerStage w pc inflight) (hb : BusStep w b w' os) :
    AnswerStage w' pc inflight := by
  cases h with
  | wait => exact .wait
  | send hvalid => exact .send (hvalid.step hb)
  | none hpc => exact .none hpc

/-- The calls that `serve` has answered, and the one it has not. -/
structure Answers (L : List ConnObs) (w : Bus) (pc : ServePc) (answers : List Answer)
    (inflight : List (PublishMessage × CallId)) : Prop where
  published : publishings L = answers.map (fun a => (a.message, a.call)) ++ inflight
  written : acksWritten L = answers.map Answer.payload
  valid : ∀ a ∈ answers, a.Valid w
  stage : AnswerStage w pc inflight

namespace Answers

variable {answers : List Answer} {inflight' : List (PublishMessage × CallId)}

/-- A step that writes no ACK. -/
theorem move (h : Answers L w pc answers inflight) (hb : BusStep w b w' os)
    (hpub : inflight ++ publishings obs = inflight') (hack : acksWritten obs = [])
    (hstage : AnswerStage w' pc' inflight') : Answers (L ++ obs) w' pc' answers inflight' where
  published := by rw [publishings_append, h.published, List.append_assoc, hpub]
  written := by rw [acksWritten_append, hack, List.append_nil, h.written]
  valid a ha := (h.valid a ha).step hb
  stage := hstage

/-- The ACK for a message is written. -/
theorem write {a : Answer} (h : Answers L w pc answers [(a.message, a.call)]) (ha : a.Valid w)
    (hb : BusStep w b w' os) (hpub : publishings obs = []) (hack : acksWritten obs = [a.payload])
    (hpc : pc'.answering = false) : Answers (L ++ obs) w' pc' (answers ++ [a]) [] where
  published := by
    rw [publishings_append, h.published, hpub]
    simp
  written := by
    rw [acksWritten_append, hack, h.written]
    simp
  valid a' ha' := by
    rcases List.mem_append.mp ha' with hold | hnew
    · exact (h.valid a' hold).step hb
    · obtain rfl := List.mem_singleton.mp hnew
      exact ha.step hb
  stage := .none hpc

end Answers

section Move

variable {s' : Server} {a : ConnAction} {bos : List Obs} {answers : List Answer}

/-- A step of `serve` that writes keeps the answers in the order of the calls. -/
private theorem ServeMove.answer_step (hm : ServeMove s c a pc pc' bus obs)
    (hb : BusStep s.bus bus s'.bus bos) (hwrites : ∀ text, a ≠ .serveSendFails text)
    (hruns : ∀ call op, pc.call = some (call, op) → s.bus.Runs call op)
    (hread : ∀ p ∈ publishings L, ∃ payload, decodePublish payload = .ok p.1)
    (h : Answers L s.bus pc answers inflight) :
    ∃ answers inflight, Answers (L ++ obs) s'.bus pc' answers inflight := by
  have hstage := h.stage
  -- a step between two program counters at which no answer is due
  have hquiet : inflight = [] → publishings obs = [] → acksWritten obs = [] →
      pc'.answering = false →
      ∃ answers inflight, Answers (L ++ obs) s'.bus pc' answers inflight := by
    rintro rfl hpub hack hpc'
    exact ⟨answers, [], h.move hb (by rw [hpub]; rfl) hack (.none hpc')⟩
  cases hm with
  | publishCall =>
    cases hstage with
    | none => exact ⟨answers, _, h.move hb rfl rfl .wait⟩
  | @publishReturn message call r hr =>
    cases hstage with
    | none hpc => cases hpc
    | wait =>
      obtain ⟨p, hdec⟩ := hread (message, call) (by rw [h.published]; simp)
      obtain ⟨payload, henc⟩ := encodeAck_publishAck hdec r
      have hresult := (hruns call (.publishWithResult .background message.event) rfl).published hr
      have hreply : publishReply (publishAck message r) = .send ⟨typeAck, payload⟩ .report := by
        simp [publishReply, henc]
      rw [hreply]
      have hvalid : (⟨message, call, r, payload⟩ : Answer).Valid s.bus := ⟨hr, hresult, henc⟩
      exact ⟨answers, _, h.move hb rfl rfl (.send (hvalid.step hb))⟩
  | @send frame after =>
    cases hstage with
    | send hvalid =>
      exact ⟨_, [], h.write hvalid hb rfl (by simp [acksWritten]) (AfterSend.answering_pc _)⟩
    | none hpc =>
      refine hquiet rfl rfl ?_ (AfterSend.answering_pc _)
      have htype : frame.type ≠ typeAck := by simpa [ServePc.answering] using hpc
      simp [acksWritten, htype]
  | sendReport | sendIgnore => exact absurd rfl (hwrites _)
  | subscribe | ackInvalid | unsupported | publishDraining | publishAllowed | subscribeError =>
    cases hstage with
    | none => exact hquiet rfl rfl rfl (by simp)
  | _ =>
    cases hstage with
    | none => exact hquiet rfl rfl rfl rfl

/-- A step of the connection keeps the answers in the order of the calls. -/
private theorem ConnMove.answer_step (hm : ConnMove s c a out)
    (hb : BusStep s.bus out.bus s'.bus bos) (hwrites : ∀ text, a ≠ .serveSendFails text)
    (hcalls : c.CallsInv s.bus)
    (hread : ∀ p ∈ publishings L, ∃ payload, decodePublish payload = .ok p.1)
    (h : Answers L s.bus c.serve answers inflight) :
    ∃ answers inflight, Answers (L ++ out.obs) s'.bus out.conn.serve answers inflight := by
  have hstage := h.stage
  -- the moves of `serve` that change more than its program counter answer nothing
  have hserve : c.serve.answering = false → publishings out.obs = [] → acksWritten out.obs = [] →
      out.conn.serve.answering = false →
      ∃ answers inflight, Answers (L ++ out.obs) s'.bus out.conn.serve answers inflight := by
    intro hpc hpub hack hpc'
    generalize c.serve = pc at h hstage hpc
    cases hstage with
    | wait => cases hpc
    | send => cases hpc
    | none => exact ⟨answers, [], h.move hb (by rw [hpub]; rfl) hack (.none hpc')⟩
  have hother : out.conn.serve = c.serve → publishings out.obs = [] → acksWritten out.obs = [] →
      ∃ answers inflight, Answers (L ++ out.obs) s'.bus out.conn.serve answers inflight := by
    intro hpc hpub hack
    rw [hpc]
    exact ⟨answers, inflight, h.move hb (by rw [hpub, List.append_nil]) hack (hstage.step hb)⟩
  cases hm with
  | serve hpc hm =>
    subst hpc
    exact hm.answer_step hb hwrites hcalls.serve hread h
  | connect _ hpc => exact hserve (by rw [hpc]; rfl) rfl rfl (by simp)
  | read _ hpc | store hpc | replaced hpc | spawn hpc | acknowledge hpc | unsubscribe hpc
  | abort hpc => exact hserve (by rw [hpc]; rfl) rfl rfl rfl
  | deliver _ hm => cases hm <;> exact hother rfl rfl rfl
  | graceful _ hm => cases hm <;> exact hother rfl rfl rfl
  | _ => exact hother rfl rfl rfl

end Move

/-- No write of `serve` on connection `k` fails. -/
def ServeWrites (k : ConnId) (_ : Server) (a : ServerAction) : Prop :=
  ∀ text, a ≠ .conn k (.serveSendFails text)

/-- A message published is one that was decoded. -/
theorem published_decoded (h : (Server.lts config).Reach G log s) {p : PublishMessage × CallId}
    (hp : p ∈ publishings (connLog k log)) :
    ∃ frame, .read frame ∈ connLog k log ∧ frame.type = typePublish ∧
      decodePublish frame.payload = .ok p.1 := by
  have hmem := (publishes_read h k).subset (List.mem_map_of_mem hp)
  obtain ⟨o, ho, heq⟩ := List.mem_filterMap.mp hmem
  split at heq
  · rename_i frame
    obtain ⟨htype, hdec⟩ := publishOf_eq_some.mp heq
    exact ⟨frame, ho, htype, hdec⟩
  · cases heq

/-- One ACK for each call of the broker that has returned, in order; the last call may still
    be waiting for its ACK. -/
theorem answers_inv (h : (Server.lts config).Reach (ServeWrites k) log s)
    (hc : s.connections k = some c) :
    ∃ answers inflight, Answers (connLog k log) s.bus c.serve answers inflight := by
  refine Server.conn_induct h hc (I := fun L w c =>
    ∃ answers inflight, Answers L w c.serve answers inflight) ?_ ?_
  · exact fun _ => ⟨[], [], rfl, rfl, by simp, .none rfl⟩
  · rintro log s a s' os c c' obs b hr - hc - hwrites hb hch ⟨answers, inflight, hans⟩
    cases hch with
    | @move act _ hm hbus =>
      refine hm.answer_step hbus (fun text heq => hwrites text (heq ▸ rfl))
        (calls_inv hr hc) ?_ hans
      intro p hp
      obtain ⟨frame, -, -, hdec⟩ := published_decoded hr hp
      exact ⟨_, hdec⟩
    | _ => exact ⟨answers, inflight, hans.move hb (List.append_nil _) rfl (hans.stage.step hb)⟩

/-! ## The IDs of the answers -/

/-- The ID in an ACK frame. -/
def ackIDOf (frame : Frame) : Option Bytes :=
  if frame.type = typeAck then (decodeAck frame.payload).toOption.map AckMessage.id else none

/-- The ID that the peer reads is the one that was written. -/
theorem ackIDOf_encode (henc : encodeAck ack = .ok payload) :
    ackIDOf ⟨typeAck, payload⟩ = some ack.id := by
  simp [ackIDOf, (decodeAck_ok_iff payload ack).mpr henc, Except.toOption]

theorem ackIDOf_eq_some {frame : Frame} (htype : frame.type = typeAck)
    (hdec : decodeAck frame.payload = .ok ack) : ackIDOf frame = some ack.id := by
  simp [ackIDOf, htype, hdec, Except.toOption]

/-- The IDs in the ACK frames that the connection has written. -/
def ackIDsWritten (L : List ConnObs) : List Bytes :=
  (L.filterMap ConnObs.wrote?).filterMap ackIDOf

@[simp] theorem ackIDsWritten_append (L obs : List ConnObs) :
    ackIDsWritten (L ++ obs) = ackIDsWritten L ++ ackIDsWritten obs := by
  simp [ackIDsWritten]

/-- The ID of the message that `serve` has published and not answered. -/
def ServePc.answerIDs : ServePc → List Bytes
  | .publishWait message _ => [message.id]
  | .send frame _ => (ackIDOf frame).toList
  | _ => []

theorem ServePc.Reports.answerIDs (h : pc.Reports) : pc.answerIDs = [] := by
  cases h <;> rfl

/-- The answer has the ID of the message, whatever the broker returned. -/
theorem publishAck_id (message : PublishMessage) (r : Ret) :
    (publishAck message r).id = message.id := by
  unfold publishAck
  split <;> rfl

section Move

variable {a : ConnAction}

/-- Each answer of `serve` is for a message it has published, in order. -/
theorem ServeMove.answerIDs (h : ServeMove s c a pc pc' bus obs) :
    (ackIDsWritten obs ++ pc'.answerIDs).Sublist
      (pc.answerIDs ++ (publishings obs).map (·.1.id)) := by
  -- a request that is refused, or goes on, is not answered here
  have hnone : ackIDsWritten obs = [] → pc'.answerIDs = [] →
      (ackIDsWritten obs ++ pc'.answerIDs).Sublist
        (pc.answerIDs ++ (publishings obs).map (·.1.id)) := by
    intro hobs hpc
    rw [hobs, hpc]
    exact List.nil_sublist _
  cases h with
  | publishCall => exact .refl _
  | @publishReturn message call r =>
    rcases publishReply_cases (publishAck message r) with hrep | ⟨payload, henc, hpc⟩
    · exact hnone rfl hrep.answerIDs
    · rw [hpc]
      show ((ackIDOf ⟨typeAck, payload⟩).toList).Sublist [message.id]
      rw [ackIDOf_encode henc, publishAck_id]
      exact .refl _
  | @send frame after =>
    show ([frame].filterMap ackIDOf ++ after.pc.answerIDs).Sublist ((ackIDOf frame).toList ++ [])
    rw [after.reports_pc.answerIDs, List.filterMap_cons]
    split <;> simp [*]
  | subscribe =>
    rcases subscribeNext_cases _ with hrep | ⟨_, -, hpc⟩
    · exact hnone rfl hrep.answerIDs
    · exact hnone rfl (by rw [hpc]; rfl)
  | publishAllowed =>
    rcases publishNext_cases _ with hrep | ⟨_, -, hpc⟩
    · exact hnone rfl hrep.answerIDs
    · exact hnone rfl (by rw [hpc]; rfl)
  | ackInvalid | unsupported | publishDraining | subscribeError | sendReport =>
    exact hnone rfl (reports_sendError _ _).answerIDs
  | sendIgnore => exact hnone rfl (AfterSend.reports_pc _).answerIDs
  | _ => exact List.nil_sublist _

/-- One step: what is answered, or due, was due or has just been published. -/
theorem ConnMove.answerIDs (h : ConnMove s c a out) :
    (ackIDsWritten out.obs ++ out.conn.serve.answerIDs).Sublist
      (c.serve.answerIDs ++ (publishings out.obs).map (·.1.id)) := by
  cases h with
  | serve hpc hm =>
    subst hpc
    exact hm.answerIDs
  | connect =>
    show ((connectNext _).answerIDs).Sublist _
    rw [(reports_connectNext _).answerIDs]
    exact List.nil_sublist _
  | deliver _ hm => cases hm <;> exact List.sublist_append_left _ _
  | graceful _ hm => cases hm <;> exact List.sublist_append_left _ _
  | read | store | replaced | spawn | acknowledge | unsubscribe | abort => exact List.nil_sublist _
  | _ => exact List.sublist_append_left _ _

end Move

/-- The IDs in the ACK frames written are those of messages published, in order, whether or
    not all writes succeed. -/
theorem acks_published (h : (Server.lts config).Reach G log s) (k : ConnId) :
    (ackIDsWritten (connLog k log)).Sublist ((publishings (connLog k log)).map (·.1.id)) := by
  have hinv : ∀ c, s.connections k = some c →
      (ackIDsWritten (connLog k log) ++ c.serve.answerIDs).Sublist
        ((publishings (connLog k log)).map (·.1.id)) := by
    intro c hc
    refine Server.conn_induct h hc (I := fun L _ c =>
      (ackIDsWritten L ++ c.serve.answerIDs).Sublist ((publishings L).map (·.1.id)))
      (fun _ => .slnil) ?_
    intro log s a s' os c c' obs b _ _ _ _ _ _ hch ih
    rw [ackIDsWritten_append, publishings_append, List.map_append]
    refine ih.through ?_
    cases hch with
    | move hm => exact hm.answerIDs
    | _ => exact List.sublist_append_left _ _
  cases hk : s.connections k with
  | none =>
    rw [connLog_eq_nil h hk]
    exact .slnil
  | some c => exact (List.sublist_append_left _ _).trans (hinv c hk)

/-! ## Progress -/

/-- `serve` can take up the result of its call. -/
theorem step_publishReturn (hc : s.connections k = some c)
    (hpc : c.serve = .publishWait message call) (hr : s.bus.calls call = some (.returned r)) :
    s.step (.conn k .publishReturn) =
      some (s.setConn k { c with serve := publishReply (publishAck message r) }, []) := by
  have hresult : s.bus.result call = some r := by simp [Bus.result, hr]
  simp [Server.step, Server.stepConn, hc, Server.connStep, Connection.publishReturn, hpc, hresult,
    Connection.done]

/-- `serve` can write the answer while the TCP connection is open. -/
theorem step_serveSend {after : AfterSend} (hc : s.connections k = some c)
    (hpc : c.serve = .send ⟨typeAck, payload⟩ after) (henc : encodeAck ack = .ok payload)
    (hnet : c.netClosed = false) :
    s.step (.conn k .serveSend) = some (s.setConn k { c with serve := after.pc },
      [.conn k (.wrote .serve ⟨typeAck, payload⟩)]) := by
  obtain ⟨bytes, hw⟩ := writeFrame_ack henc
  have hwritable : c.writable ⟨typeAck, payload⟩ = true := by simp [Connection.writable, hnet, hw]
  simp [Server.step, Server.stepConn, hc, Server.connStep, Connection.serveSend, hpc, hwritable,
    Connection.done]

/-- The ACK for a call of the broker that has returned is written, or `serve` goes on to write
    it as long as the socket is open. -/
theorem ack_progress (h : (Server.lts config).Reach (ServeWrites k) log s)
    (hc : s.connections k = some c) (hnet : c.netClosed = false)
    (hp : (message, call) ∈ publishings (connLog k log))
    (hr : s.bus.calls call = some (.returned r)) :
    ∃ payload os s', encodeAck (publishAck message r) = .ok payload ∧
      (Server.lts config).Steps (ServeWrites k) s os s' ∧
      payload ∈ acksWritten (connLog k (log ++ os)) := by
  have hsend : ∀ text, ServerAction.conn k .serveSend ≠ .conn k (.serveSendFails text) := by simp
  have hacks : ∀ payload, acksWritten (connLog k
      [ServerObs.conn k (.wrote .serve ⟨typeAck, payload⟩)]) = [payload] := by
    intro payload
    simp [acksWritten, connLog, ServerObs.conn?]
  obtain ⟨answers, inflight, hans⟩ := answers_inv h hc
  have hstage := hans.stage
  rw [hans.published, List.mem_append] at hp
  rcases hp with hdone | hwait
  · obtain ⟨a, ha, heq⟩ := List.mem_map.mp hdone
    obtain ⟨rfl, rfl⟩ := Prod.mk.inj heq
    have hvalid := hans.valid a ha
    obtain rfl : a.ret = r := by simpa [hvalid.returned] using hr
    refine ⟨a.payload, [], s, hvalid.encoded, .refl s, ?_⟩
    rw [List.append_nil, hans.written]
    exact List.mem_map_of_mem ha
  · generalize hpc : c.serve = pc at hstage
    cases hstage with
    | none => cases hwait
    | wait =>
      obtain ⟨rfl, rfl⟩ := Prod.mk.inj (List.mem_singleton.mp hwait)
      have hmem : (message, call) ∈ publishings (connLog k log) := by
        rw [hans.published]
        exact List.mem_append_right _ hwait
      obtain ⟨frame, -, -, hdec⟩ := published_decoded h hmem
      obtain ⟨payload, henc⟩ := encodeAck_publishAck hdec r
      -- the call returns to `serve`, which writes the ACK
      have hreturn := step_publishReturn hc hpc hr
      have hreply : publishReply (publishAck message r) = .send ⟨typeAck, payload⟩ .report := by
        simp [publishReply, henc]
      rw [hreply] at hreturn
      have hwrite := step_serveSend (c := { c with serve := .send ⟨typeAck, payload⟩ .report })
        (Server.setConn_self s k _) rfl henc hnet
      have hsteps : (Server.lts config).Steps (ServeWrites k) s
          ([] ++ [.conn k (.wrote .serve ⟨typeAck, payload⟩)]) _ :=
        (Lts.Steps.single (a := .conn k .publishReturn) (by simp [ServeWrites]) hreturn).trans
          (.single (a := .conn k .serveSend) hsend hwrite)
      refine ⟨payload, _, _, henc, hsteps, ?_⟩
      rw [List.nil_append, connLog_append, acksWritten_append, hacks]
      exact List.mem_append_right _ (List.mem_singleton_self _)
    | @send a hvalid =>
      obtain ⟨rfl, rfl⟩ := Prod.mk.inj (List.mem_singleton.mp hwait)
      obtain rfl : a.ret = r := by simpa [hvalid.returned] using hr
      have hwrite := step_serveSend hc hpc hvalid.encoded hnet
      refine ⟨a.payload, _, _, hvalid.encoded, .single (a := .conn k .serveSend) hsend hwrite, ?_⟩
      rw [connLog_append, acksWritten_append, hacks]
      exact List.mem_append_right _ (List.mem_singleton_self _)

end EventBus
