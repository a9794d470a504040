import EventBus.Spec.ServerCalls
import EventBus.Spec.ServerDelivery
import EventBus.Spec.WireRequests

/-!
# Progress of a session

On a connection that does not drain, `serve` waits for nothing but bytes of its peer and calls of
the broker. Each of its steps lowers the work that is left, which bytes that arrive raise by three
for each byte; so it comes to rest once the broker has returned from its calls.

## Key results

- `work_step`: a step of `serve` lowers the work left, and no other step but the arrival of bytes
  raises it
- `serve_progress`: `serve` rests, waits for a call of the broker, or can move
- `session_requests`: the requests of a session are a function of the frames of its stream
-/

namespace EventBus

variable {rest topic : Bytes} {frame : Frame} {s : Server} {c : Connection} {a : ConnAction}
  {config : Config}

/-! ## The work left -/

/-- A bound on the steps of `serve` until it is back at `ReadFrame` or has returned, and 3 more at
    `ReadFrame`. -/
def ServePc.weight : ServePc → Nat
  | .finished => 0
  | .closing => 1
  | .abort => 2
  | .handshake | .reading | .send _ .quit => 3
  | .acknowledgeSend .. | .send _ .loop => 4
  | .send _ .report => 5
  | .subscribeUnlock _ => 6
  | .subscribeSpawn _ => 7
  | .subscribeReplaceWait .. => 8
  | .subscribeReplace .. => 9
  | .subscribeStore .. => 10
  | .subscribeWait .. | .publishWait .. | .unsubscribeWait .. => 11
  | .subscribeCall _ | .publishCall _ | .unsubscribeCall _ => 12
  | .isDrainingConn .. => 13
  | .isDraining _ => 14
  | .subscribeLock _ => 15
  | .handle _ => 16

/-- The work that connection `k` has left. A frame has at least five bytes, and three for each of
    them pay for its handling. -/
def Wire.work (w : Wire) (k : ConnId) : Nat :=
  3 * (w.streams k).unread.length +
    match w.server.connections k with
    | some c => c.serve.weight
    -- the connection is yet to be accepted
    | none => ServePc.handshake.weight

/-- An ERROR frame that cannot be encoded is not sent, which leaves less to do. -/
theorem weight_sendError (text : Bytes) (after : AfterSend) :
    (sendError text after).weight ≤ (ServePc.send ⟨typeError, []⟩ after).weight := by
  unfold sendError
  split
  · cases after <;> exact Nat.le_refl _
  · cases after <;> decide

theorem weight_sendError_loop (text : Bytes) : (sendError text .loop).weight ≤ 4 :=
  weight_sendError text .loop

/-- What is left after the first frame. -/
theorem weight_connectNext (frame : Frame) : (connectNext frame).weight ≤ 3 := by
  unfold connectNext
  split
  · exact weight_sendError _ .quit
  · split
    · exact weight_sendError _ .quit
    · exact Nat.le_refl _

/-- What is left of a SUBSCRIBE frame. -/
theorem weight_subscribeNext (payload : Bytes) : (subscribeNext payload).weight ≤ 15 := by
  unfold subscribeNext
  split
  · exact Nat.le_trans (weight_sendError_loop _) (by decide)
  · split
    · exact Nat.le_trans (weight_sendError_loop _) (by decide)
    · exact Nat.le_refl _

/-- What is left of a PUBLISH frame. -/
theorem weight_publishNext (payload : Bytes) : (publishNext payload).weight ≤ 12 := by
  unfold publishNext
  split
  · exact Nat.le_trans (weight_sendError_loop _) (by decide)
  · split
    · exact Nat.le_trans (weight_sendError_loop _) (by decide)
    · exact Nat.le_refl _

/-- What is left of the answer to a publish. -/
theorem weight_publishReply (ack : AckMessage) : (publishReply ack).weight ≤ 5 := by
  unfold publishReply
  split
  · exact Nat.le_trans (weight_sendError_loop _) (by decide)
  · exact Nat.le_refl _

section Move

variable {out : Out}

/-- Every step of `serve` but a read lowers the weight. -/
theorem ServeMove.weight {pc pc' : ServePc} {bus : Option Action} {obs : List ConnObs}
    (h : ServeMove s c a pc pc' bus obs) : pc'.weight < pc.weight := by
  cases h with
  | subscribe => exact Nat.lt_succ_of_le (weight_subscribeNext _)
  | publishAllowed => exact Nat.lt_succ_of_le (weight_publishNext _)
  | publishReturn => exact Nat.lt_of_le_of_lt (weight_publishReply _) (by simp [ServePc.weight])
  | ackInvalid | unsupported | publishDraining | subscribeError | sendReport =>
    exact Nat.lt_of_le_of_lt (weight_sendError_loop _) (by simp [ServePc.weight])
  | @send frame after | @sendIgnore frame after =>
    cases after <;> simp [ServePc.weight, AfterSend.pc]
  | _ => simp [ServePc.weight]

/-- The steps of `serve` that do not read. -/
def ConnAction.ofServe : ConnAction → Bool
  | .serveDispatch | .subscribeLock | .isDraining | .isDrainingConn | .subscribeCall _
  | .subscribeReturn | .subscribeStore | .subscribeReplace _ | .subscribeReplaced | .subscribeSpawn
  | .subscribeUnlock | .publishCall _ | .publishReturn | .acknowledgeSend | .unsubscribeCall _
  | .unsubscribeReturn | .serveSend | .serveSendFails _ | .abort | .serveClosed => true
  | _ => false

/-- A step of `serve` other than a read leaves less to do. -/
theorem ConnMove.weight_lt (h : ConnMove s c a out) (ha : a.ofServe = true) :
    out.conn.serve.weight < c.serve.weight := by
  cases h with
  | serve hpc hm =>
    rw [hpc]
    exact hm.weight
  | store hpc | replaced hpc | spawn hpc | acknowledge hpc | unsubscribe hpc | abort hpc =>
    rw [hpc]
    simp [ServePc.weight]
  | deliver _ hm | graceful _ hm | close _ hm => cases hm <;> exact nomatch ha
  | _ => cases ha

/-- A step of a goroutine that does not read lowers the weight, or leaves `serve` where it is. -/
theorem ConnMove.weight (h : ConnMove s c a out) (hread : a ≠ .serveRead) :
    out.conn.serve.weight < c.serve.weight ∨ out.conn.serve = c.serve := by
  cases h with
  | serve hpc hm =>
    rw [hpc]
    exact .inl hm.weight
  | connect | read => exact absurd rfl hread
  | store hpc | replaced hpc | spawn hpc | acknowledge hpc | unsubscribe hpc | abort hpc =>
    rw [hpc]
    exact .inl (by simp [ServePc.weight])
  | _ => exact .inr rfl

end Move

/-- A frame has at least five bytes. -/
theorem readFrame_length {r : Bytes} (h : readFrame r = .ok (frame, rest)) :
    rest.length + 5 ≤ r.length := by
  obtain ⟨p, hp, rfl⟩ := (readFrame_ok_iff _ _ _).mp h
  obtain ⟨-, -, rfl⟩ := (writeFrame_ok_iff _ _).mp hp
  simp [Frame.header]
  omega

/-- A move lowers the work left, or leaves `serve` and the bytes it is to read as they are, apart
    from those that arrive. -/
theorem SessionMove.work {c' : Connection} {stream stream' : ByteStream} {r : SessionReport}
    (h : SessionMove s c stream c' stream' r) :
    3 * stream'.unread.length + c'.serve.weight < 3 * stream.unread.length + c.serve.weight ∨
      (c'.serve = c.serve ∧ stream'.unread = stream.unread ++ r.bytes) := by
  cases h with
  | other hserve => exact .inr ⟨hserve, (List.append_nil _).symm⟩
  | arrive => exact .inr ⟨rfl, rfl⟩
  | ends => exact .inr ⟨rfl, (List.append_nil _).symm⟩
  | move hread _ hm =>
    rcases hm.weight hread with hlt | heq
    · exact .inl (Nat.add_lt_add_left hlt _)
    · exact .inr ⟨heq, (List.append_nil _).symm⟩
  | @connect frame rest hread hpc =>
    have hlen := readFrame_length hread
    have hnext := weight_connectNext frame
    rw [hpc]
    left
    show 3 * rest.length + (connectNext frame).weight < 3 * stream.unread.length + 3
    omega
  | @read frame rest hread hpc =>
    have hlen := readFrame_length hread
    rw [hpc]
    left
    dsimp only [ServePc.weight]
    omega
  | fails hpc | closed hpc =>
    left
    rcases hpc with hpc | hpc <;> rw [hpc] <;> simp [ServePc.weight]

section Work

variable {log : List WireObs} {w w' : Wire} {k : ConnId} {a : WireAction} {os : List WireObs}

theorem Wire.work_eq (hc : w.server.connections k = some c) :
    w.work k = 3 * (w.streams k).unread.length + c.serve.weight := by
  rw [Wire.work, hc]

/-- Only bytes that arrive add to the work left. -/
theorem work_step (h : (Wire.lts config).Reach Lts.Always log w)
    (hs : (Wire.lts config).step w a = some (w', os)) :
    w'.work k ≤ w.work k + 3 * (arrivedAt k os).length := by
  have heff := wire_step_effect hs
  cases hc : w.server.connections k with
  | none =>
    obtain ⟨hc', bytes, hbytes, hreport⟩ := heff.absent hc
    have harrived : arrivedAt k os = bytes := congrArg SessionReport.bytes hreport
    rw [Wire.work, Wire.work, hc, hbytes, harrived, List.length_append]
    rcases hc' with hc' | hc' <;> rw [hc'] <;> dsimp only [newConnection] <;> omega
  | some c =>
    obtain ⟨c', hc', -, hm⟩ := heff.session hc (input_nil h hc)
    rw [Wire.work_eq hc, Wire.work_eq hc']
    rcases hm.work with hlt | ⟨hserve, hunread⟩
    · omega
    · rw [hserve, hunread, List.length_append]
      show _ ≤ _ + 3 * (reportOf k os).bytes.length
      omega

end Work

/-! ## What `serve` waits for -/

section Enabled

variable {k : ConnId}

theorem Connection.serveDispatch_done (hpc : c.serve = .handle frame) :
    ∃ c' obs, c.serveDispatch = some ⟨c', none, obs⟩ := by
  unfold Connection.serveDispatch
  rw [hpc]
  dsimp only
  split_ifs
  · exact ⟨_, _, rfl⟩
  · exact ⟨_, _, rfl⟩
  · unfold Connection.acknowledge
    split
    · exact ⟨_, _, rfl⟩
    · split <;> exact ⟨_, _, rfl⟩
  · exact ⟨_, _, rfl⟩
  · unfold Connection.unsubscribe
    split
    · exact ⟨_, _, rfl⟩
    · split <;> exact ⟨_, _, rfl⟩
  · exact ⟨_, _, rfl⟩

theorem Connection.isDrainingConn_done {request : Request} {b : Bool}
    (hpc : c.serve = .isDrainingConn request b) :
    ∃ c' obs, c.isDrainingConn = some ⟨c', none, obs⟩ := by
  unfold Connection.isDrainingConn
  rw [hpc]
  cases request with
  | subscribe | publish =>
    dsimp only
    split <;> exact ⟨_, _, rfl⟩

/-- `serve` goes on when `Subscribe` has returned. -/
theorem Connection.subscribeReturn_done {call : CallId} {bus : Bus}
    (hpc : c.serve = .subscribeWait topic call) (hruns : bus.Runs call (.subscribe topic))
    (hret : bus.result call ≠ none) : ∃ c' obs, c.subscribeReturn bus = some ⟨c', none, obs⟩ := by
  obtain ⟨r, hr⟩ := Option.ne_none_iff_exists'.mp hret
  unfold Connection.subscribeReturn
  rw [hpc]
  dsimp only
  rw [hr]
  rcases hruns.subscribe_returned (Bus.result_eq_some.mp hr) with ⟨p, rfl⟩ | ⟨err, rfl⟩
  · exact ⟨_, _, rfl⟩
  · exact ⟨_, _, rfl⟩

theorem Connection.subscribeStore_done {sub : SubPtr} (hpc : c.serve = .subscribeStore topic sub) :
    ∃ c' obs, c.subscribeStore = some ⟨c', none, obs⟩ := by
  unfold Connection.subscribeStore
  rw [hpc]
  dsimp only
  split <;> exact ⟨_, _, rfl⟩

/-- The send on the acknowledgement channel never blocks: it has a `default`. -/
theorem Connection.acknowledgeSend_done {ch : AckChan} {status : UInt8} {chan : Chan UInt8}
    (hpc : c.serve = .acknowledgeSend ch status) (hch : c.acks[ch]? = some chan)
    (hopen : chan.closed = false) : ∃ c' obs, c.acknowledgeSend = some ⟨c', none, obs⟩ := by
  unfold Connection.acknowledgeSend
  rw [hpc]
  dsimp only
  rw [hch]
  dsimp only
  cases hsend : chan.send status with
  | done chan' => exact ⟨_, _, rfl⟩
  | blocked => exact ⟨_, _, rfl⟩
  | panics =>
    rw [Chan.send_panics_iff, hopen] at hsend
    cases hsend

/-- `serve` can move, alone or with a new call of the broker. -/
def Server.ServeMoves (s : Server) (k : ConnId) : Prop :=
  ∃ a s' os, a.ofServe = true ∧ s.step (.conn k a) = some (s', os)

/-- `serve` can take a step that calls nothing. -/
theorem Server.ServeMoves.done (hc : s.connections k = some c) (ha : a.ofServe = true)
    (h : ∃ c' obs, s.connStep c a = some ⟨c', none, obs⟩) :
    s.ServeMoves k := by
  obtain ⟨c', obs, h⟩ := h
  refine ⟨a, s.setConn k c', obs.map (.conn k), ha, ?_⟩
  simp only [Server.step, Server.stepConn, hc, h]

/-- `serve` can make a call of the broker. -/
theorem Server.ServeMoves.call {a : CallId → ConnAction} (hc : s.connections k = some c)
    (ha : ∀ call, (a call).ofServe = true)
    (hinvoke : ∃ call, ∀ op, ∃ bus, s.bus.step (.invoke call op) = some (bus, [.invoked call op]))
    (h : ∀ call, ∃ c' op obs, s.connStep c (a call) = some ⟨c', some (.invoke call op), obs⟩) :
    s.ServeMoves k := by
  obtain ⟨call, hinvoke⟩ := hinvoke
  obtain ⟨c', op, obs, h⟩ := h call
  obtain ⟨bus, hbus⟩ := hinvoke op
  refine ⟨a call, { s.setConn k c' with bus := bus },
    [.bus (.invoked call op)] ++ obs.map (.conn k), ha call, ?_⟩
  simp only [Server.step, Server.stepConn, hc, h, hbus]
  rfl

/-- Away from `ReadFrame`, `serve` moves once the broker has returned from its call. -/
theorem serve_moves {G : Server → ServerAction → Prop} {log : List ServerObs}
    (h : (Server.lts config).Reach G log s) (hc : s.connections k = some c)
    (hd : s.draining = false)
    (hret : ∀ call op, c.serve.call = some (call, op) → s.bus.result call ≠ none)
    (hread : c.serve ≠ .handshake ∧ c.serve ≠ .reading)
    (hleft : c.serve ≠ .abort ∧ c.serve ≠ .closing ∧ c.serve ≠ .finished) : s.ServeMoves k := by
  have hinvoke := Bus.exists_invoke (Server.reach_bus h)
  have hresult : ∀ {call op}, c.serve.call = some (call, op) → ∃ r, s.bus.result call = some r :=
    fun hcall => Option.ne_none_iff_exists'.mp (hret _ _ hcall)
  cases hpc : c.serve with
  | handshake => exact absurd hpc hread.1
  | reading => exact absurd hpc hread.2
  | abort => exact absurd hpc hleft.1
  | closing => exact absurd hpc hleft.2.1
  | finished => exact absurd hpc hleft.2.2
  | handle frame => exact .done (a := .serveDispatch) hc rfl (Connection.serveDispatch_done hpc)
  | subscribeLock topic =>
    -- `gracefulClose`, which might hold `c.deliveryMu`, has not been started
    have hfree : c.awaiting = false := by
      rw [Connection.awaiting, (conn_draining h hc hd).2]
    refine .done (a := .subscribeLock) hc rfl ?_
    simp only [Server.connStep, Connection.subscribeLock, hpc, hfree]
    exact ⟨_, _, rfl⟩
  | isDraining request =>
    refine .done (a := .isDraining) hc rfl ?_
    simp only [Server.connStep, Connection.isDraining, hpc]
    exact ⟨_, _, rfl⟩
  | isDrainingConn request b =>
    exact .done (a := .isDrainingConn) hc rfl (Connection.isDrainingConn_done hpc)
  | subscribeCall topic =>
    refine .call (a := .subscribeCall) hc (fun _ => rfl) hinvoke fun call => ?_
    simp only [Server.connStep, Connection.subscribeCall, hpc]
    exact ⟨_, _, _, rfl⟩
  | subscribeWait topic call =>
    have hpcall : c.serve.call = some (call, .subscribe topic) := by rw [hpc]; rfl
    have hruns := (calls_inv h hc).serve call _ hpcall
    exact .done (a := .subscribeReturn) hc rfl
      (Connection.subscribeReturn_done hpc hruns (hret _ _ hpcall))
  | subscribeStore topic sub =>
    exact .done (a := .subscribeStore) hc rfl (Connection.subscribeStore_done hpc)
  | subscribeReplace topic sub old =>
    refine .call (a := .subscribeReplace) hc (fun _ => rfl) hinvoke fun call => ?_
    simp only [Server.connStep, Connection.subscribeReplace, hpc]
    exact ⟨_, _, _, rfl⟩
  | subscribeReplaceWait topic sub old call =>
    obtain ⟨r, hr⟩ := hresult (by rw [hpc]; rfl)
    refine .done (a := .subscribeReplaced) hc rfl ?_
    simp only [Server.connStep, Connection.subscribeReplaced, hpc, hr]
    exact ⟨_, _, rfl⟩
  | subscribeSpawn sub =>
    refine .done (a := .subscribeSpawn) hc rfl ?_
    simp only [Server.connStep, Connection.subscribeSpawn, hpc]
    exact ⟨_, _, rfl⟩
  | subscribeUnlock err =>
    cases err with
    | none | some =>
      refine .done (a := .subscribeUnlock) hc rfl ?_
      simp only [Server.connStep, Connection.subscribeUnlock, hpc]
      exact ⟨_, _, rfl⟩
  | publishCall message =>
    refine .call (a := .publishCall) hc (fun _ => rfl) hinvoke fun call => ?_
    simp only [Server.connStep, Connection.publishCall, hpc]
    exact ⟨_, _, _, rfl⟩
  | publishWait message call =>
    obtain ⟨r, hr⟩ := hresult (by rw [hpc]; rfl)
    refine .done (a := .publishReturn) hc rfl ?_
    simp only [Server.connStep, Connection.publishReturn, hpc, hr]
    exact ⟨_, _, rfl⟩
  | acknowledgeSend ch status =>
    obtain ⟨chan, hch, hopen⟩ := acknowledge_open h hc hpc
    exact .done (a := .acknowledgeSend) hc rfl (Connection.acknowledgeSend_done hpc hch hopen)
  | unsubscribeCall sub =>
    refine .call (a := .unsubscribeCall) hc (fun _ => rfl) hinvoke fun call => ?_
    simp only [Server.connStep, Connection.unsubscribeCall, hpc]
    exact ⟨_, _, _, rfl⟩
  | unsubscribeWait sub call =>
    obtain ⟨r, hr⟩ := hresult (by rw [hpc]; rfl)
    refine .done (a := .unsubscribeReturn) hc rfl ?_
    simp only [Server.connStep, Connection.unsubscribeReturn, hpc, hr]
    exact ⟨_, _, rfl⟩
  | send frame after =>
    -- the write may fail, whatever the state of the connection
    cases after with
    | loop | report | quit =>
      refine .done (a := .serveSendFails []) hc rfl ?_
      simp only [Server.connStep, Connection.serveSendFails, hpc]
      exact ⟨_, _, rfl⟩

theorem reads_of_ofServe (ha : a.ofServe = true) :
    (ServerAction.conn k a).reads = false := by
  cases a <;> first | rfl | exact nomatch ha

/-- `serve` comes nearer to its next read. -/
theorem serve_step_weight {s' : Server} {os : List ServerObs} (hc : s.connections k = some c)
    (ha : a.ofServe = true) (hstep : s.step (.conn k a) = some (s', os)) :
    ∃ c', s'.connections k = some c' ∧ c'.serve.weight < c.serve.weight := by
  cases server_step_effect hstep with
  | conn hc₀ hm | connBus hc₀ hm =>
    obtain rfl := Option.some.inj (hc.symm.trans hc₀)
    exact ⟨_, Server.setConn_self _ _ _, hm.weight_lt ha⟩

/-- `ReadFrame` may fail whenever it is called. -/
theorem serveReadFails_step (hc : s.connections k = some c)
    (hpc : c.serve = .handshake ∨ c.serve = .reading) :
    ∃ s' os, s.step (.conn k .serveReadFails) = some (s', os) := by
  rcases hpc with hpc | hpc
  all_goals
    simp only [Server.step, Server.stepConn, hc, Server.connStep, Connection.serveReadFails, hpc]
    exact ⟨_, _, rfl⟩

/-- A frame that arrives while `serve` reads can be read. -/
theorem serveRead_step (hc : s.connections k = some c) (hin : c.input = [])
    (hpc : c.serve = .handshake ∨ c.serve = .reading) (hnet : c.netClosed = false) {p : Bytes}
    (hframe : writeFrame frame = .ok p) :
    ∃ s₁ s' os, s.step (.peerSend k frame) = some (s₁, []) ∧
      s₁.step (.conn k .serveRead) = some (s', os) := by
  have hsend : s.step (.peerSend k frame) =
      some (s.setConn k { c with input := c.input ++ [frame] }, []) := by
    simp only [Server.step, Server.peerSend, hc, hframe]
  have hserve : ∃ s' os, (s.setConn k { c with input := c.input ++ [frame] }).step
      (.conn k .serveRead) = some (s', os) := by
    rcases hpc with hpc | hpc
    all_goals
      simp only [Server.step, Server.stepConn, Server.setConn_self, Server.connStep,
        Connection.serveRead, hnet, hpc, hin]
      exact ⟨_, _, rfl⟩
  obtain ⟨s', os, hserve⟩ := hserve
  exact ⟨_, s', os, hsend, hserve⟩

end Enabled

section Progress

variable {log : List WireObs} {w : Wire} {k : ConnId}

/-- At `ReadFrame`, with a frame to read. -/
theorem read_moves (h : (Wire.lts config).Reach Lts.Always log w)
    (hc : w.server.connections k = some c) (hpc : c.serve = .handshake ∨ c.serve = .reading)
    (hread : readFrame (w.streams k).unread = .ok (frame, rest)) :
    ∃ a w' os, (Wire.lts config).step w a = some (w', os) ∧ w'.work k < w.work k := by
  have hweight : c.serve.weight = 3 := by
    rcases hpc with hpc | hpc <;> rw [hpc] <;> rfl
  cases hnet : c.netClosed with
  | true =>
    -- the server has closed the connection: `ReadFrame` returns an error
    obtain ⟨s', os, hstep⟩ := serveReadFails_step hc hpc
    obtain ⟨-, -, hc'⟩ := serveReadFails_change hc hstep
    refine ⟨.readClosed k, { w with server := s' }, os.map .server ++ [.cut k], ?_, ?_⟩
    · simp only [Wire.lts, Wire.step, Wire.readClosed, hc, hnet, Wire.serveReadFails, hstep]
      rfl
    · rw [Wire.work_eq hc, Wire.work_eq hc', hweight]
      simp [ServePc.weight]
  | false =>
    obtain ⟨p, hframe, -⟩ := (readFrame_ok_iff _ _ _).mp hread
    obtain ⟨s₁, s', os, hsend, hserve⟩ := serveRead_step hc (input_nil h hc) hpc hnet hframe
    obtain ⟨-, hc'⟩ := serveRead_change hc (input_nil h hc) hsend hserve
    refine ⟨.readFrame k, ({ w with server := s' }).setStream k { w.streams k with unread := rest },
      os.map .server, ?_, ?_⟩
    · simp only [Wire.lts, Wire.step, Wire.readFrame, hread, hsend, hserve]
    · have hlen := readFrame_length hread
      have hnext := weight_connectNext frame
      rw [Wire.work_eq hc, hweight]
      rcases hc' with ⟨-, hc'⟩ | ⟨-, hc'⟩
      · rw [Wire.work_eq hc', Wire.setStream_self]
        show 3 * rest.length + (connectNext frame).weight < _
        omega
      · rw [Wire.work_eq hc', Wire.setStream_self]
        show 3 * rest.length + 16 < _
        omega

/-- On a connection that does not drain, `serve` rests, waits for a call of the broker, or can
    move. -/
theorem serve_progress (h : (Wire.lts config).Reach Lts.Always log w)
    (hc : w.server.connections k = some c) (hd : w.server.draining = false)
    (hret : ∀ call op, c.serve.call = some (call, op) → w.server.bus.result call ≠ none) :
    c.Rests (w.streams k) ∨
      ∃ a w' os, (Wire.lts config).step w a = some (w', os) ∧ w'.work k < w.work k := by
  by_cases hleft : c.serve = .abort ∨ c.serve = .closing ∨ c.serve = .finished
  · exact .inl (.inl hleft)
  by_cases hread : c.serve = .handshake ∨ c.serve = .reading
  · -- at `ReadFrame`, which has a frame to read or rests
    cases hnext : nextFrame (w.streams k).unread with
    | none => exact .inl (.inr ⟨hread, hnext⟩)
    | some r => exact .inr (read_moves h hc hread (nextFrame_eq_some.mp hnext))
  obtain ⟨a, s', os, ha, hstep⟩ := serve_moves (Wire.reach_server h) hc hd hret
    (not_or.mp hread) ⟨fun hpc => hleft (.inl hpc), fun hpc => hleft (.inr (.inl hpc)),
      fun hpc => hleft (.inr (.inr hpc))⟩
  obtain ⟨c', hc', hlt⟩ := serve_step_weight hc ha hstep
  refine .inr ⟨.server (.conn k a), { w with server := s' },
    os.map .server ++ w.requestObs (.conn k a), ?_, ?_⟩
  · simp only [Wire.lts, Wire.step, Wire.serverStep, reads_of_ofServe ha, hstep]
    rfl
  · rw [Wire.work_eq hc, Wire.work_eq hc']
    exact Nat.add_lt_add_left hlt _

/-- While its server does not drain, the requests of a connection are a function of the frames in
    the longest part of its stream that consists of frames: `requestsOf` of them, once `serve` has
    handled the stream, and the first of these before. They are none unless the first frame is a
    CONNECT with a well-formed payload, and each is asked for by a later frame of its own, with a
    well-formed payload, in the order of the frames. A stream that is cut at any byte leads to the
    first of the requests of the whole stream. Once the broker has returned from the call that
    `serve` waits for, `serve` has handled the stream or can move; a move of it takes of the work
    left, to which nothing but bytes adds. -/
theorem session_requests (h : (Wire.lts config).Reach Lts.Always log w)
    (hd : w.server.draining = false) (k : ConnId) :
    (requestsMade k log <+: requestsOf (framesOf (arrivedAt k log)) ∧
      (w.Served log k → requestsMade k log = requestsOf (framesOf (arrivedAt k log)))) ∧
    ((∃ p, Exact.Framed writeFrame (framesOf (arrivedAt k log)) p ∧ p <+: arrivedAt k log) ∧
      ∀ frames p, Exact.Framed writeFrame frames p → p <+: arrivedAt k log →
        frames <+: framesOf (arrivedAt k log)) ∧
    (requestsMade k log ≠ [] →
      ∃ first rest message, framesOf (arrivedAt k log) = first :: rest ∧
        first.type = typeConnect ∧ encodeConnect message = .ok first.payload) ∧
    (∃ asking, asking.Sublist (framesOf (arrivedAt k log)).tail ∧
      List.Forall₂ Frame.Asks asking (requestsMade k log)) ∧
    (w.Served log k → ∀ config' log' w' k', (Wire.lts config').Reach Lts.Always log' w' →
      w'.server.draining = false → arrivedAt k' log' <+: arrivedAt k log →
      requestsMade k' log' <+: requestsMade k log) ∧
    (∀ c, w.server.connections k = some c →
      (∀ call op, c.serve.call = some (call, op) → w.server.bus.result call ≠ none) →
      c.Rests (w.streams k) ∨
        ∃ a w' os, (Wire.lts config).step w a = some (w', os) ∧ w'.work k < w.work k) ∧
    ∀ a w' os, (Wire.lts config).step w a = some (w', os) →
      w'.work k ≤ w.work k + 3 * (arrivedAt k os).length :=
  ⟨⟨requestsMade_first h hd k, requestsMade_eq h hd⟩, framesOf_longest _,
    requestsMade_connects h hd, requestsMade_asked h hd k,
    fun hserved _ _ _ _ h' hd' => requestsMade_of_part h hd hserved h' hd',
    fun _ hc hret => serve_progress h hc hd hret, fun _ _ _ => work_step h⟩

end Progress

/-- A CONNECT, a SUBSCRIBE to the topic `t` and two bytes of a header arrive, and the stream
    ends. The connection has made one request. -/
theorem session_requests_subscribe :
    ∃ log w, (Wire.lts ⟨1, 0, 0, .block⟩).Reach Lts.Always log w ∧ w.server.draining = false ∧
      w.Served log 0 ∧ requestsMade 0 log = [.subscribe [116]] ∧
      requestsMade 0 log = requestsOf (framesOf (arrivedAt 0 log)) := by
  obtain ⟨log, w, hr, hd, hcut, hmade, c, hc, hrests⟩ :=
    Lts.reach_of_runWhere (M := Wire.lts ⟨1, 0, 0, .block⟩) (G := Lts.Always) rfl
      [.server (.accept 0),
        .peerWrite 0 [0, 0, 0, 2, 1, 0, 0, 0, 0, 0, 3, 2, 0, 1, 116, 0, 0], .peerEnd 0,
        .readFrame 0, .readFrame 0, .server (.conn 0 .serveDispatch),
        .server (.conn 0 .subscribeLock), .server (.conn 0 .isDraining),
        .server (.conn 0 .isDrainingConn), .server (.conn 0 (.subscribeCall 0)),
        .server (.bus (.subscribe 0)), .server (.conn 0 .subscribeReturn),
        .server (.conn 0 .subscribeStore), .server (.conn 0 .subscribeSpawn),
        .server (.conn 0 .subscribeUnlock), .readFrameFails 0]
      (Q := fun r => r.1.server.draining = false ∧ .cut 0 ∉ r.2 ∧
        requestsMade 0 r.2 = [.subscribe [116]] ∧
        ∃ c ∈ r.1.server.connections 0, c.Rests (r.1.streams 0))
      (by decide)
  have hserved : w.Served log 0 := ⟨hcut, c, hc, hrests⟩
  exact ⟨log, w, hr, hd, hserved, hmade, (session_requests hr hd 0).1.2 hserved⟩

end EventBus
