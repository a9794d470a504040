import EventBus.Spec.ServerOrderly
import EventBus.Spec.SessionReply

/-!
# The redirect reaches the client

While a server drains, it answers a request that it refuses with an ERROR frame, and a
client that reads an ERROR frame closes its connection: the SHUTDOWN frame comes too late
(`redirect_lost`). A client none of whose requests is refused gets the redirect before it
closes its connection (`redirect_delivered`).

## Key results

- `redirect_delivered`: the redirect is put on the channel, if no request is refused
- `redirect_lost`: a request that is refused
-/

namespace EventBus

variable {frame : Frame} {G : Session → SessionAction → Prop} {a : ClientAction}
  {os : List ClientObs} {client : Client} {s : Session}

/-- The server has closed the socket of connection `k`. -/
def Session.serverNetClosed (k : ConnId) (s : Session) : Bool :=
  (s.server.connections k).any Connection.netClosed

/-- Connection `k` waits for this call of `Drain`. -/
def Server.drainsWith (s : Server) (k : ConnId) (call : CallId) : Bool :=
  (s.connections k).any fun c =>
    match c.graceful with
    | .drainWait _ call' _ => call' = call
    | _ => false

/-- Connection `k` waits for this call of `Subscribe`. -/
def Server.subscribesWith (s : Server) (k : ConnId) (call : CallId) : Bool :=
  (s.connections k).any fun c =>
    match c.serve with
    | .subscribeWait _ call' => call' = call
    | _ => false

/-- Reads and writes do not fail before an end of the connection is closed, the context of
    `GracefulShutdown` does not end, its redirect fits into a frame, and nobody calls `Close`. -/
def Session.reliable (k : ConnId) (s : Session) : SessionAction → Bool
  | .server (.conn k' a) =>
    !(decide (k' = k) && a.tcpFails) || s.serverNetClosed k || s.client.netClosed
  | .server (.gracefulShutdown _ redirect _) => decide (redirect.length ≤ maxStringSize)
  | .server (.bus (.drainCtx call)) => !s.server.drainsWith k call
  | .server (.close _) | .server .closeConn | .client .close => false
  | .client .readFails =>
    s.client.netClosed || (s.serverNetClosed k && s.client.input.isEmpty)
  | _ => true

/-- No request of the client is refused: each names a topic, and neither `isDraining` nor
    `Subscribe` finds the server draining. -/
def Session.unrefused (k : ConnId) (s : Session) : SessionAction → Bool
  | .server (.conn k' a) =>
    !(decide (k' = k) && (s.server.connections k).any fun c => c.refuses a)
  | .server (.bus (.subscribe call)) =>
    !(s.server.subscribesWith k call &&
      (s.server.bus.broker.closed || s.server.bus.broker.draining))
  | .client a => a.namesTopic
  | _ => true

/-- The run is one in which TCP does not fail and nobody closes either end, no request is
    refused, and no message ID is used again before it has been answered. -/
def ServedThrough (k : ConnId) (s : Session × List SessionObs) (a : SessionAction) : Prop :=
  s.1.reliable k a = true ∧ s.1.unrefused k a = true ∧ ReusesAnswered s a

instance (k : ConnId) (s : Session × List SessionObs) (a : SessionAction) :
    Decidable (ServedThrough k s a) :=
  inferInstanceAs (Decidable (_ ∧ _ ∧ _))

/-! ## The wire -/

/-- After the CONNECT frame come requests. -/
theorem Dialog.next {before rest : List Frame} (h : Dialog (before ++ frame :: rest)) :
    (before = [] → connectNext frame = .reading) ∧ (before ≠ [] → RequestFrame frame) := by
  cases before with
  | nil =>
    obtain ⟨⟨clientID, payload, henc, rfl⟩, -⟩ := h
    refine ⟨fun _ => ?_, fun hne => absurd rfl hne⟩
    simp [connectNext, (decodeConnect_ok_iff _ _).mpr henc]
  | cons first before =>
    exact ⟨nofun, fun _ => h.2 frame (List.mem_append_right _ List.mem_cons_self)⟩

section Wire

variable {k : ConnId} {log : List SessionObs}

/-- What the client has read was written by its server. -/
theorem WireInv.wrote (h : WireInv k log s) (ho : .read frame ∈ clientLog log) :
    ∃ writer, .wrote writer frame ∈ connLog k (serverLog log) := by
  have hmem : frame ∈ (clientLog log).filterMap ClientObs.read? :=
    List.mem_filterMap.mpr ⟨_, ho, rfl⟩
  have hwrote := h.toClient ▸ List.mem_append_left s.client.input hmem
  obtain ⟨o, hlog, heq⟩ := List.mem_filterMap.mp hwrote
  cases o with
  | wrote writer frame' =>
    cases heq
    exact ⟨writer, hlog⟩
  | _ => cases heq

/-- What the server has written has been read, or is still to be read. -/
theorem WireInv.read (h : WireInv k log s) {writer : Writer}
    (ho : .wrote writer frame ∈ connLog k (serverLog log)) :
    .read frame ∈ clientLog log ∨ frame ∈ s.client.input := by
  have hmem : frame ∈ (connLog k (serverLog log)).filterMap ConnObs.wrote? :=
    List.mem_filterMap.mpr ⟨_, ho, rfl⟩
  rw [h.toClient] at hmem
  rcases List.mem_append.mp hmem with hread | hin
  · obtain ⟨o, hlog, heq⟩ := List.mem_filterMap.mp hread
    cases o with
    | read frame' =>
      cases heq
      exact .inl hlog
    | _ => cases heq
  · exact .inr hin

end Wire

/-! ## The invariant -/

/-- Until the client closes its connection, the server serves it and closes it in order; the
    client closes it after it has put the redirect on its channel. -/
structure Session.ShutdownInv (k : ConnId) (log : List SessionObs) (s : Session) : Prop where
  reader : s.client.ReaderInv (clientLog log)
  redirect : s.server.redirect.length ≤ maxStringSize
  conn : s.client.isDone = false → ∀ c, s.server.connections k = some c →
    c.Orderly (connLog k (serverLog log)) s.server.bus

section Inv

variable {config : Config} {k : ConnId} {log : List SessionObs}

/-- The client can read the frame that it has at hand. -/
theorem Session.ShutdownInv.readable (hinv : s.ShutdownInv k log)
    (h : (Session.lts config k).Reach G log s) (hpc : s.client.reader = .handle frame) :
    Readable frame := by
  have hserver := Session.reach_server h
  have hdone := hinv.reader.not_done (by rw [hpc]; rfl)
  obtain ⟨writer, ho⟩ := (wire_inv h).wrote (hinv.reader.handle frame hpc)
  cases hc : s.server.connections k with
  | none =>
    rw [connLog_eq_nil hserver hc] at ho
    cases ho
  | some c =>
    refine written_readable hserver ho ?_
    -- only `serve` could write a frame of another type, and it has written no ERROR frame
    cases writer with
    | serve => exact (hinv.conn hdone c hc).serves.written frame ho
    | delivery sub ch =>
      obtain ⟨-, htype, -⟩ := delivery_frame hserver hc ho
      rw [htype]
      decide
    | graceful =>
      rw [(shutdown_frames hserver ho).1]
      decide

/-- `readLoop` does not find the end of the stream before the SHUTDOWN frame. -/
theorem Session.ShutdownInv.not_readFails (hinv : s.ShutdownInv k log)
    (h : (Session.lts config k).Reach G log s)
    (hreliable : s.reliable k (.client .readFails) = true) : s.client.reader ≠ .reading := by
  intro hpc
  have hleft : s.client.reader.left = false := by
    rw [hpc]
    rfl
  have hdone := hinv.reader.not_done hleft
  have hend : s.serverNetClosed k = true ∧ s.client.input = [] := by
    simpa [Session.reliable, s.client.netClosed_of_not_done hdone] using hreliable
  cases hc : s.server.connections k with
  | none =>
    rw [Session.serverNetClosed, hc] at hend
    exact nomatch hend.1
  | some c =>
    have hnet : c.netClosed = true := by simpa [Session.serverNetClosed, hc] using hend.1
    -- the server closes its end after it has written the SHUTDOWN frame
    have horder := (hinv.conn hdone c hc).inOrder
    have hstage := of_decide_eq_true (horder.netClosed.symm.trans hnet)
    obtain ⟨frame, ho⟩ := horder.told (by omega)
    have hread := ((wire_inv h).read ho).resolve_right (by simp [hend.2])
    have htype := (shutdown_frames (Session.reach_server h) ho).1
    exact hinv.reader.unread hleft (by simp [hpc]) (by simp [hpc]) hread htype

theorem ServePc.call_subscribe {pc : ServePc} {call : CallId} {topic : Bytes}
    (h : pc.call = some (call, .subscribe topic)) : pc = .subscribeWait topic call := by
  cases pc with
  | subscribeWait topic' call' =>
    obtain ⟨rfl, hop⟩ := Prod.mk.inj (Option.some.inj h)
    rw [Op.subscribe.inj hop]
  | subscribeReplaceWait | publishWait | unsubscribeWait =>
    obtain ⟨-, hop⟩ := Prod.mk.inj (Option.some.inj h)
    cases hop
  | _ => cases h

/-- The frames on their way to the server are the CONNECT frame and requests, in this order. -/
theorem Session.next_in_order (h : (Session.lts config k).Reach
      (fun s a => s.unrefused k a = true) log s) {c : Connection}
    (hc : s.server.connections k = some c) : c.NextInOrder (connLog k (serverLog log)) := by
  have hclient : Client.lts.Reach (fun _ a => a.namesTopic = true) (clientLog log) s.client :=
    Session.reach_client_of (fun _ _ hg => hg) (fun _ _ => rfl) h
  have hdialog := (request_inv hclient fun _ _ hg => hg).dialog
  intro frame rest hin
  rw [(wire_inv h).toServer c hc, hin] at hdialog
  exact hdialog.next

/-- A step of the server keeps the connection in order. -/
theorem Session.ShutdownInv.server_step (hinv : s.ShutdownInv k log)
    (h : (Session.lts config k).Reach (fun s a => s.unrefused k a = true) log s)
    {a : ServerAction} {server : Server} {os : List ServerObs}
    (hstep : s.server.step a = some (server, os)) (hreliable : s.reliable k (.server a) = true)
    (hunrefused : s.unrefused k (.server a) = true) (hdone : s.client.isDone = false)
    {c' : Connection} (hc' : server.connections k = some c') :
    c'.Orderly (connLog k (serverLog log ++ os)) server.bus := by
  have hserver := Session.reach_server h
  have heff := server_step_effect hstep
  have hnet := s.client.netClosed_of_not_done hdone
  rw [connLog_append]
  rcases heff.conn_cases hc' with ⟨hnone, rfl, hlog⟩ | ⟨c, obs, hc, hlog, hch⟩
  · rw [connLog_eq_nil hserver hnone, hlog]
    exact orderly_new _
  rw [hlog]
  refine (hinv.conn hdone c hc).change hch heff (calls_inv hserver hc)
    (fun hk => (pending_inv hserver).idle k hk c hc) hinv.redirect (Session.next_in_order h hc)
    ?_ ?_ ?_ ?_ ?_
  -- what the guards say about this step
  · rintro act rfl hfails
    simpa [Session.reliable, hfails, Session.serverNetClosed, hc, hnet] using hreliable
  · rintro act rfl
    simpa [Session.unrefused, hc] using hunrefused
  · rintro topic call hcall rfl
    have hpc := ServePc.call_subscribe hcall
    simpa [Session.unrefused, Server.subscribesWith, hc, hpc] using hunrefused
  · rintro sub call todo hpc rfl
    simp [Session.reliable, Server.drainsWith, hc, hpc] at hreliable
  · rintro rfl
    cases hreliable

/-- `c.done` stays closed. -/
theorem ClientEffect.not_done {c c' : Client} (h : ClientEffect c a c' os)
    (hdone : c'.isDone = false) : c.isDone = false := by
  cases h with
  | @call _ _ _ out _ hm | @readAcknowledge _ _ out _ hm =>
    obtain ⟨_, _, _, _, heq⟩ := hm.client_eq
    replace hdone : out.client.isDone = false := hdone
    rwa [heq] at hdone
  | readClose | close | closeConn => cases hdone
  | _ => exact hdone

/-- A step of the client brings it nearer to the redirect, or leaves it where it is. -/
theorem Session.ShutdownInv.client_step (hinv : s.ShutdownInv k log)
    (h : (Session.lts config k).Reach G log s) (heff : ClientEffect s.client a client os)
    (hreliable : s.reliable k (.client a) = true) : client.ReaderInv (clientLog log ++ os) := by
  refine hinv.reader.step heff ?_ ?_ fun frame hpc => hinv.readable h hpc
  · rintro rfl
    cases hreliable
  · rintro rfl
    cases heff with
    | readFails hpc => exact hinv.not_readFails h hreliable hpc

theorem shutdown_inv {s : Session × List SessionObs}
    (h : (Session.lts config k).history.Reach (ServedThrough k) log s) :
    s.1.ShutdownInv k log := by
  refine h.induct_history (P := fun log s => s.ShutdownInv k log) ?_ ?_
  · rintro _ rfl
    exact ⟨⟨nofun, nofun, nofun, nofun, nofun, nofun, fun _ => ⟨rfl, rfl, rfl⟩, nofun⟩,
      Nat.zero_le _, fun _ _ hc => nomatch hc⟩
  rintro log s a s' os hr ih ⟨hreliable, hunrefused, -⟩ hstep
  have hreach : (Session.lts config k).Reach (fun s a => s.unrefused k a = true) log s :=
    hr.of_history fun _ _ hg => hg.2.1
  cases session_step_effect hstep with
  | @server a server os _ hserver =>
    constructor
    · rw [clientLog_append, clientLog_map_server]
      exact ih.reader.stay rfl ih.reader.done (by simp) (by simp) ih.reader.room
    · cases server_step_effect hserver with
      | gracefulShutdown => exact of_decide_eq_true hreliable
      | _ => exact ih.redirect
    · intro hdone c' hc'
      rw [serverLog_append, serverLog_map_server]
      exact ih.server_step hreach hserver hreliable hunrefused hdone hc'
  | @client a client os _ hclient =>
    have heff := client_step_effect hclient
    constructor
    · rw [clientLog_append, clientLog_map_client]
      exact ih.client_step hreach heff hreliable
    · exact ih.redirect
    · intro hdone c hc
      rw [serverLog_append, serverLog_map_client, List.append_nil]
      exact ih.conn (heff.not_done hdone) c hc
  | @send a client os frame server _ hclient _ hserver =>
    have heff := client_step_effect hclient
    constructor
    · rw [clientLog_append, clientLog_map_client]
      exact ih.client_step hreach heff hreliable
    · cases server_step_effect hserver
      exact ih.redirect
    · intro hdone c' hc'
      rw [serverLog_append, serverLog_map_client]
      exact ih.server_step hreach hserver rfl rfl (heff.not_done hdone) hc'

end Inv

/-! ## The redirect -/

section Redirect

variable {config : Config} {k : ConnId} {log : List SessionObs} {s : Session × List SessionObs}

/-- A step of the client is one of the session, if its server can take what it sends. -/
theorem Session.step_of_client {s : Session} (hstep : s.client.step a = some (client, os))
    (hpeer : a.fromPeer = false) (hk : s.server.connections k ≠ none)
    (hsent : ∀ frame, .sent frame ∈ os → ∃ bytes, writeFrame frame = .ok bytes) :
    ∃ server, s.step k (.client a) = some (⟨server, client⟩, os.map .client) := by
  obtain ⟨c, hc⟩ := Option.ne_none_iff_exists'.mp hk
  show ∃ server, s.clientStep k a = _
  unfold Session.clientStep
  simp only [hpeer, hstep]
  cases hs : os.filterMap ClientObs.sent? with
  | nil => exact ⟨s.server, rfl⟩
  | cons frame rest =>
    have hmem : frame ∈ os.filterMap ClientObs.sent? := by
      rw [hs]
      exact List.mem_cons_self
    obtain ⟨o, ho, heq⟩ := List.mem_filterMap.mp hmem
    cases o with
    | sent frame' =>
      obtain rfl := Option.some.inj heq
      obtain ⟨bytes, hw⟩ := hsent _ ho
      exact ⟨s.server.setConn k { c with input := c.input ++ [frame'] },
        by simp [Server.step, Server.peerSend, hc, hw]⟩
    | _ => cases heq

theorem servedThrough_ofReader (h : a.ofReader = true) :
    ServedThrough k s (.client a) := by
  cases a with
  | read | dispatch | readAcknowledge | put | reply | shutdown | receive =>
    exact ⟨rfl, rfl, nofun⟩
  | _ => cases h

/-- Every redirect that `readLoop` puts on its channel is that of `GracefulShutdown`. -/
theorem redirected_redirect (h : (Session.lts config k).history.Reach (ServedThrough k) log s)
    {redirect : Bytes} (ho : .redirected redirect ∈ clientLog log) :
    redirect = s.1.server.redirect ∧
      ∃ frame, Redirects s.1.server.redirect frame ∧ .read frame ∈ clientLog log := by
  have hreach : (Session.lts config k).Reach Lts.Always log s.1 := h.of_history fun _ _ _ => trivial
  have hserver := Session.reach_server hreach
  obtain ⟨-, frame, hf, hread⟩ := (shutdown_inv h).reader.redirected redirect ho
  obtain ⟨writer, hw⟩ := (wire_inv hreach).wrote hread
  obtain rfl := shutdown_writer hserver hw hf.1
  have hf' := shutdown_frames hserver hw
  exact ⟨hf.unique hf', frame, hf', hread⟩

/-- Once the SHUTDOWN frame is on the wire, a client that has dialed gets to the redirect. -/
theorem redirect_progress (h : (Session.lts config k).history.Reach (ServedThrough k) log s)
    (ho : .wrote .graceful frame ∈ connLog k (serverLog log))
    (hdialed : s.1.client.reader ≠ .idle) :
    ∃ log' s', (Session.lts config k).history.Steps (ServedThrough k) s log' s' ∧
      ∃ redirect, .redirected redirect ∈ clientLog (log ++ log') := by
  refine h.progress (P := fun log s => .wrote .graceful frame ∈ connLog k (serverLog log) ∧
    s.1.client.reader ≠ .idle) (Q := fun log => ∃ redirect, .redirected redirect ∈ clientLog log)
    (fun s => s.1.client.toRead) ?_ ⟨ho, hdialed⟩
  rintro log s hr ⟨ho, hdialed⟩
  have hreach : (Session.lts config k).Reach Lts.Always log s.1 :=
    hr.of_history fun _ _ _ => trivial
  have hserver := Session.reach_server hreach
  have hinv := shutdown_inv hr
  -- `readLoop` has left its loop with a redirect, or takes a step that brings it nearer to it
  cases hleft : s.1.client.reader.left with
  | true =>
    refine ⟨[], s, .refl s, .inl ?_⟩
    rw [List.append_nil]
    exact hinv.reader.left hleft
  | false =>
    -- the SHUTDOWN frame has not been read, so that there is input
    have hinput : s.1.client.reader = .reading → s.1.client.input ≠ [] := by
      intro hpc hnil
      have hread := ((wire_inv hreach).read ho).resolve_right (by simp [hnil])
      exact hinv.reader.unread hleft (by simp [hpc]) (by simp [hpc]) hread
        (shutdown_frames hserver ho).1
    obtain ⟨a, client, os, hstep, ha, hidle, hsent, hless⟩ := hinv.reader.advances hleft hdialed
      hinput fun ch ack hpc => reply_sends (hr.mono fun _ _ hg => hg.2.2) hpc
    have hk : s.1.server.connections k ≠ none := by
      intro hnone
      rw [connLog_eq_nil hserver hnone] at ho
      cases ho
    have hpeer : a.fromPeer = false := by
      cases a with
      | peerSend => cases ha
      | _ => rfl
    obtain ⟨server, hsession⟩ := Session.step_of_client hstep hpeer hk hsent
    refine ⟨os.map .client, (⟨server, client⟩, s.2 ++ os.map .client), ?_,
      .inr ⟨⟨?_, hidle⟩, hless⟩⟩
    · exact Lts.Steps.single (M := (Session.lts config k).history) (a := .client a)
        (servedThrough_ofReader ha) (Lts.history_step_of hsession)
    · rw [serverLog_append, serverLog_map_client, List.append_nil]
      exact ho

/-- The client closes its connection after it has put the redirect of `GracefulShutdown` on its
    channel, and it comes to that once `gracefulClose` has finished, if no request is refused. -/
theorem redirect_delivered (h : (Session.lts config k).history.Reach (ServedThrough k) log s) :
    (s.1.client.isDone = true → .redirected s.1.server.redirect ∈ clientLog log ∧
      ∃ frame, Redirects s.1.server.redirect frame ∧ .read frame ∈ clientLog log) ∧
    ∀ c, s.1.server.connections k = some c → c.graceful = .finished →
      s.1.client.reader ≠ .idle → ∃ log' s',
        (Session.lts config k).history.Steps (ServedThrough k) s log' s' ∧
          .redirected s.1.server.redirect ∈ clientLog (log ++ log') := by
  have hinv := shutdown_inv h
  refine ⟨fun hdone => ?_, fun c hc hpc hdialed => ?_⟩
  · obtain ⟨redirect, ho⟩ := hinv.reader.left (hinv.reader.done hdone)
    obtain ⟨rfl, hread⟩ := redirected_redirect h ho
    exact ⟨ho, hread⟩
  cases hleft : s.1.client.reader.left with
  | true =>
    obtain ⟨redirect, ho⟩ := hinv.reader.left hleft
    obtain ⟨rfl, -⟩ := redirected_redirect h ho
    refine ⟨[], s, .refl s, ?_⟩
    rwa [List.append_nil]
  | false =>
    have hdone := hinv.reader.not_done hleft
    obtain ⟨frame, hw⟩ := (hinv.conn hdone c hc).inOrder.told (by rw [hpc]; decide)
    obtain ⟨log', s', hsteps, redirect, ho⟩ := redirect_progress h hw hdialed
    obtain ⟨rfl, -⟩ := redirected_redirect (h.trans hsteps) ho
    -- the frame that was written names the redirect before and after the further steps
    have hreach : (Session.lts config k).Reach Lts.Always log s.1 :=
      h.of_history fun _ _ _ => trivial
    have hreach' : (Session.lts config k).Reach Lts.Always (log ++ log') s'.1 :=
      (h.trans hsteps).of_history fun _ _ _ => trivial
    have hw' : .wrote .graceful frame ∈ connLog k (serverLog (log ++ log')) := by
      rw [serverLog_append, connLog_append]
      exact List.mem_append_left _ hw
    have heq := (shutdown_frames (Session.reach_server hreach) hw).unique
      (shutdown_frames (Session.reach_server hreach') hw')
    rw [heq]
    exact ⟨log', s', hsteps, ho⟩

end Redirect

/-! ## Runs -/

/-- `GracefulShutdown` starts `gracefulClose` of connection 0, with `call` for `BeginShutdown`. -/
private def redirectRun (call : CallId) : List SessionAction :=
  serverRun [.gracefulShutdown .background [114] [0], .beginShutdown call,
    .bus (.beginShutdown call), .beginReturn, .drainConn]

/-- `gracefulClose` of a connection without subscriptions. -/
private def gracefulCloseRun : List SessionAction :=
  serverRun [.conn 0 (.gracefulStart []), .conn 0 .gracefulLock, .conn 0 .gracefulWait,
    .conn 0 .gracefulUnlock, .conn 0 .gracefulSend, .conn 0 .gracefulCloseTransport,
    .conn 0 .gracefulCloseNet]

/-- A PUBLISH frame passes `isDraining` before `GracefulShutdown` is called and is rejected by
    the broker: the client reads the ACK, goes on and gets the redirect. -/
theorem redirect_delivered_rejected :
    ∃ log s, (Session.lts ⟨2, 0, 32, .block⟩ 0).history.Reach (ServedThrough 0) log s ∧
      s.1.client.reader = .handle ⟨typeAck, [0, 1, 1, ackRejected, 0, 18] ++ Err.draining.text⟩ ∧
      ∃ log' s', (Session.lts ⟨2, 0, 32, .block⟩ 0).history.Steps (ServedThrough 0) s log' s' ∧
        .redirected [114] ∈ clientLog (log ++ log') := by
  obtain ⟨log, s, hr, ⟨c, hc, hfin⟩, hpc, hredirect⟩ :=
    Lts.reach_of_runWhere (M := (Session.lts ⟨2, 0, 32, .block⟩ 0).history) (G := ServedThrough 0)
      (Lts.history_init rfl)
      (dialRun 0 ++ publishWithResultRun 0 1 ++
        serverRun [.conn 0 .serveRead, .conn 0 .serveDispatch, .conn 0 .isDraining,
          .conn 0 .isDrainingConn] ++ redirectRun 0 ++
        serverRun [.conn 0 (.publishCall 1), .bus (.publishEnter 1 [] []), .conn 0 .publishReturn,
          .conn 0 .serveSend] ++ gracefulCloseRun ++ clientRun [.read])
      (Q := fun r => (∃ c ∈ r.1.1.server.connections 0, c.graceful = .finished) ∧
        r.1.1.client.reader =
          .handle ⟨typeAck, [0, 1, 1, ackRejected, 0, 18] ++ Err.draining.text⟩ ∧
        r.1.1.server.redirect = [114]) (by decide)
  have hdelivered := (redirect_delivered hr).2 c hc hfin (by rw [hpc]; exact nofun)
  rw [hredirect] at hdelivered
  exact ⟨log, s, hr, hpc, hdelivered⟩

/-- A SUBSCRIBE frame that comes after the call of `GracefulShutdown` is answered with an ERROR
    frame. The client closes its connection and does not read the SHUTDOWN frame. -/
theorem redirect_lost :
    ∃ log s, (Session.lts ⟨2, 0, 32, .block⟩ 0).Reach (fun s a => s.reliable 0 a = true) log s ∧
      .shuttingDown [0] ∈ serverLog log ∧
      (∃ c ∈ s.server.connections 0, c.graceful = .finished) ∧
      s.client.input = [⟨typeShutdown, [0, 1, 114]⟩] ∧ s.client.isDone = true ∧
      ∀ o ∈ clientLog log, o ≠ .redirected [114] :=
  Lts.reach_of_runWhere (M := Session.lts ⟨2, 0, 32, .block⟩ 0)
    (G := fun s a => s.reliable 0 a = true) rfl
    (dialRun 0 ++ serverRun [.gracefulShutdown .background [114] [0]] ++
      sendRun 0 0 (.subscribe [116]) ++
      serverRun [.conn 0 .subscribeLock, .conn 0 .isDraining, .conn 0 .isDrainingConn,
        .conn 0 .subscribeUnlock, .conn 0 .serveSend, .beginShutdown 0, .bus (.beginShutdown 0),
        .beginReturn, .drainConn] ++ gracefulCloseRun ++ clientRun [.read, .dispatch, .readClose])
    (Q := fun r => .shuttingDown [0] ∈ serverLog r.2 ∧
      (∃ c ∈ r.1.server.connections 0, c.graceful = .finished) ∧
      r.1.client.input = [⟨typeShutdown, [0, 1, 114]⟩] ∧ r.1.client.isDone = true ∧
      ∀ o ∈ clientLog r.2, o ≠ .redirected [114]) (by decide)

end EventBus
