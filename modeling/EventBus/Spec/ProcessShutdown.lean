import EventBus.Spec.ProcessStep

/-!
# Shutting down the process

Signals and requests for `/shutdown` may come in any number and at any time. The first call
of `triggerShutdown` that gets into `shutdownOnce` decides on the redirect, and its stages
are passed in order: the connections are drained before the broker is closed, so that what
`Broker.Close` discards is never behind a SHUTDOWN frame.

## Key results

- `shutdown_once`: one shutdown, with one redirect, in order, whoever asks for it
- `process_delivers`: behind a SHUTDOWN frame nothing is lost, unless `deliver` gave up
- `early_shutdown_hangs`: a shutdown that begins before the listener is stored keeps `main`
  from returning
-/

namespace EventBus

/-! ## Requests -/

/-- The redirect is the one of the flags, or that of a request that was accepted. -/
def Requested (flags : Flags) (log : List ProcessObs) (redirect : Bytes) : Prop :=
  redirect = flags.redirect ∨ ∃ body, .responded .post redirect 202 body ∈ log

theorem Requested.mono {flags : Flags} {log log' : List ProcessObs} {redirect : Bytes}
    (h : Requested flags log redirect) (hsub : log ⊆ log') : Requested flags log' redirect :=
  h.imp_right fun ⟨body, hmem⟩ => ⟨body, hsub hmem⟩

section Requests

variable {flags : Flags} {G : Process → ProcessAction → Prop} {p p' : Process}
  {a : ProcessAction} {log os : List ProcessObs} {t : Nat} {redirect : Bytes}

theorem mem_of_set {ts : List TriggerPc} {pc q : TriggerPc} (h : q ∈ ts.set t pc)
    (hne : q ≠ pc) : q ∈ ts :=
  (List.mem_or_eq_of_mem_set h).resolve_right hne

/-- A handler passes on the redirect of its request, or that of the flags. -/
theorem ProcessEffect.handlers (h : ProcessEffect flags p a p' os) (hr : redirect ∈ p'.handlers) :
    redirect ∈ p.handlers ∨ Requested flags os redirect := by
  cases h with
  | @request query body =>
    rcases List.mem_append.mp hr with hold | hnew
    · exact .inl hold
    · rw [List.mem_singleton] at hnew
      split at hnew
      · exact .inr (.inl hnew)
      · exact .inr (.inr ⟨body, hnew ▸ List.mem_singleton.mpr rfl⟩)
  | spawn => exact .inl (List.mem_of_mem_eraseIdx hr)
  | _ => exact .inl hr

/-- `triggerShutdown` is called by a handler, or for a signal. -/
theorem ProcessEffect.triggers (h : ProcessEffect flags p a p' os)
    (hr : .enter redirect ∈ p'.triggers) :
    .enter redirect ∈ p.triggers ∨ redirect ∈ p.handlers ∨ redirect = flags.redirect := by
  cases h with
  | spawn hi =>
    rcases List.mem_append.mp hr with hold | hnew
    · exact .inl hold
    · obtain rfl := TriggerPc.enter.inj (List.mem_singleton.mp hnew)
      exact .inr (.inl (List.mem_of_getElem? hi))
  | signal =>
    rcases List.mem_append.mp hr with hold | hnew
    · exact .inl hold
    · exact .inr (.inr (TriggerPc.enter.inj (List.mem_singleton.mp hnew)))
  | shutdown =>
    refine .inl (mem_of_set hr ?_)
    split <;> simp
  | enter | skip | shutdownClosed | closeListener | gracefulReturn | closeBus | closeBusReturn
  | adminShutdown | adminReturn | panic | closeDone | onceReturn =>
    exact .inl (mem_of_set hr (by simp))
  | _ => exact .inl hr

/-- A call gets into `Do` when nobody has before. -/
theorem ProcessEffect.entered (h : ProcessEffect flags p a p' os)
    (ho : .entered t redirect ∈ os) :
    p.once = .fresh ∧ p'.once = .running ∧ p.triggers[t]? = some (.enter redirect) ∧
      os = [.entered t redirect] := by
  cases h with
  | enter hpc honce =>
    obtain ⟨rfl, rfl⟩ := ProcessObs.entered.inj (List.mem_singleton.mp ho)
    exact ⟨honce, rfl, hpc, rfl⟩
  | _ => simp at ho

theorem ProcessEffect.once_mono (h : ProcessEffect flags p a p' os) (hne : p.once ≠ .fresh) :
    p'.once ≠ .fresh := by
  cases h with
  | enter | onceReturn => simp
  | _ => exact hne

/-- The redirects of the process have been asked for. -/
structure RequestInv (flags : Flags) (log : List ProcessObs) (p : Process) : Prop where
  handlers : ∀ redirect ∈ p.handlers, Requested flags log redirect
  triggers : ∀ redirect, .enter redirect ∈ p.triggers → Requested flags log redirect
  entered : ∀ t redirect, .entered t redirect ∈ log → Requested flags log redirect

theorem requested_inv (h : (Process.lts flags).Reach G log p) : RequestInv flags log p := by
  refine h.invariant (P := fun log p => RequestInv flags log p) ?_ ?_
  · rintro _ rfl
    exact ⟨by simp [newProcess], by simp [newProcess], by simp⟩
  intro log p a p' os ih _ hstep
  have heff := (process_step_effect hstep).1
  have hlog : log ⊆ log ++ os := List.subset_append_left ..
  constructor
  · intro redirect hr
    rcases heff.handlers hr with hold | hnew
    · exact (ih.handlers redirect hold).mono hlog
    · exact hnew.mono (List.subset_append_right ..)
  · intro redirect hr
    rcases heff.triggers hr with hold | hold | heq
    · exact (ih.triggers redirect hold).mono hlog
    · exact (ih.handlers redirect hold).mono hlog
    · exact .inl heq
  · intro t redirect ho
    rcases List.mem_append.mp ho with hold | hnew
    · exact (ih.entered t redirect hold).mono hlog
    · obtain ⟨-, -, hpc, -⟩ := heff.entered hnew
      exact (ih.triggers redirect (List.mem_of_getElem? hpc)).mono hlog

/-- One call gets into `Do`. -/
theorem entered_unique (h : (Process.lts flags).Reach G log p) {t' : Nat} {redirect' : Bytes}
    (ho : .entered t redirect ∈ log) (ho' : .entered t' redirect' ∈ log) :
    t = t' ∧ redirect = redirect' := by
  have hboth : p.once ≠ .fresh ∧ t = t' ∧ redirect = redirect' := by
    refine h.invariant (P := fun log p => ∀ t redirect t' redirect', .entered t redirect ∈ log →
      .entered t' redirect' ∈ log → p.once ≠ .fresh ∧ t = t' ∧ redirect = redirect') ?_ ?_
      t redirect t' redirect' ho ho'
    · exact fun _ _ _ _ _ _ ho => nomatch ho
    intro log p a p' os ih _ hstep t redirect t' redirect' ho ho'
    have heff := (process_step_effect hstep).1
    -- a call that is in `Do` already keeps every other one out
    have hnew : ∀ {t redirect t' redirect'}, .entered t redirect ∈ os →
        .entered t' redirect' ∈ log → False := by
      intro t redirect t' redirect' ho ho'
      exact (ih _ _ _ _ ho' ho').1 (heff.entered ho).1
    rcases List.mem_append.mp ho with hold | hcur
    · rcases List.mem_append.mp ho' with hold' | hcur'
      · obtain ⟨honce, heq⟩ := ih t redirect t' redirect' hold hold'
        exact ⟨heff.once_mono honce, heq⟩
      · exact (hnew hcur' hold).elim
    · rcases List.mem_append.mp ho' with hold' | hcur'
      · exact (hnew hcur hold').elim
      · obtain ⟨-, hrunning, -, hos⟩ := heff.entered hcur
        rw [hos, List.mem_singleton] at hcur'
        obtain ⟨rfl, rfl⟩ := ProcessObs.entered.inj hcur'
        exact ⟨by simp [hrunning], rfl, rfl⟩
  exact hboth.2

/-- `shutdownDone` stays closed, and `main` waits for it or for the timer. -/
theorem done_inv (h : (Process.lts flags).Reach G log p) :
    (.shutdownDone ∈ log → p.shutdownDone = true) ∧
      (p.main = .exited .completed → p.shutdownDone = true) := by
  refine h.invariant (P := fun log p => (.shutdownDone ∈ log → p.shutdownDone = true) ∧
    (p.main = .exited .completed → p.shutdownDone = true)) ?_ ?_
  · rintro _ rfl
    exact ⟨by simp [newProcess], by simp [newProcess]⟩
  rintro log p a p' os ⟨hdone, hexit⟩ - hstep
  cases (process_step_effect hstep).1 with
  | closeDone => exact ⟨fun _ => rfl, fun _ => rfl⟩
  | mainDone _ hd => exact ⟨fun _ => hd, fun _ => hd⟩
  | mainFailed | mainServed | mainTimeout =>
    exact ⟨fun ho => hdone (by simpa using ho), by simp⟩
  | _ => exact ⟨fun ho => hdone (by simpa using ho), hexit⟩

end Requests

/-! ## One shutdown -/

/-- `Broker.Close` is called behind `GracefulShutdown`. -/
theorem invoked_late {config : Config} {log : List ServerObs} {s : Server} {call : CallId}
    (h : (Server.lts config).Reach LateClose log s)
    (ho : .invoked call .closeBroker ∈ busLog log) : s.ctl = .finished :=
  reported_late h (fun _ hlate hstep hnew =>
    hlate ((server_step_effect hstep).closesBroker hnew)) ho

/-- A SHUTDOWN frame is written by a server that drains. -/
theorem told_draining {config : Config} {G : Server → ServerAction → Prop} {log : List ServerObs}
    {s : Server} {k : ConnId} {frame : Frame} (h : (Server.lts config).Reach G log s)
    (ho : .wrote .graceful frame ∈ connLog k log) : s.draining = true := by
  cases hc : s.connections k with
  | none =>
    rw [connLog_eq_nil h hc] at ho
    cases ho
  | some c =>
    have hquiet := (shutting_inv h hc).told frame ho
    by_contra hd
    have hnot := (conn_draining h hc (by simpa using hd)).1
    rw [hquiet.draining] at hnot
    cases hnot

/-- However many signals and requests ask for it, there is one shutdown, and it goes through
    its stages in order. One call of `triggerShutdown` runs the function given to `Do`; its
    redirect is the one of the flags or that of an accepted request, and every SHUTDOWN frame
    carries it. When `Broker.Close` is called, `gracefulClose` has returned for every
    connection that was active. When `shutdownDone` is closed, and so when `main` returns
    because of it, the broker is closed, has no subscription left, and the control server
    takes no more requests; and it is closed once. -/
theorem shutdown_once {flags : Flags} {log : List ProcessObs} {p : Process}
    (h : (Process.lts flags).Reach Lts.Always log p) :
    (∀ t redirect t' redirect', .entered t redirect ∈ log → .entered t' redirect' ∈ log →
      t = t' ∧ redirect = redirect') ∧
    (∀ t redirect, .entered t redirect ∈ log →
      redirect = flags.redirect ∨ ∃ body, .responded .post redirect 202 body ∈ log) ∧
    (∀ k frame, .server (.conn k (.wrote .graceful frame)) ∈ log →
      ∃ t redirect, .entered t redirect ∈ log ∧ Redirects redirect frame) ∧
    (∀ call, .server (.bus (.invoked call .closeBroker)) ∈ log →
      ∀ k c, p.server.connections k = some c →
        c.graceful = .finished ∨ (c.graceful = .idle ∧ c.serve = .finished)) ∧
    (p.main = .exited .completed ∨ .shutdownDone ∈ log →
      p.server.bus.broker.closed = true ∧ p.server.bus.broker.topics = ∅ ∧
        p.adminClosed = true) ∧
    .panicked ∉ p.triggers := by
  obtain ⟨hs, n, hph⟩ := process_inv h
  have hat := hph.at_stage
  refine ⟨fun t redirect t' redirect' => entered_unique h, (requested_inv h).entered,
    ?_, ?_, ?_, ?_⟩
  · intro k frame ho
    have ho' : .wrote .graceful frame ∈ connLog k (Process.serverLog log) :=
      mem_connLog.mpr (Process.mem_serverLog.mpr ho)
    have hn : 2 ≤ n := of_decide_eq_true (hat.draining.symm.trans (told_draining hs ho'))
    obtain ⟨t, hentered⟩ := hph.redirect hn
    exact ⟨t, _, hentered, shutdown_frames hs ho'⟩
  · intro call ho k c hc
    have ho' : .invoked call .closeBroker ∈ busLog (Process.serverLog log) :=
      List.mem_filterMap.mpr ⟨_, Process.mem_serverLog.mpr ho, rfl⟩
    exact graceful_returned hs (invoked_late hs ho') hc
  · intro hend
    have hdone : p.shutdownDone = true := hend.elim (done_inv h).2 (done_inv h).1
    have hn : 9 ≤ n := of_decide_eq_true (hat.done.symm.trans hdone)
    have hclosed := hat.busClosed (by omega)
    refine ⟨hclosed, closed_topics (Server.reach_bus hs) hclosed, ?_⟩
    rw [hat.admin]
    exact decide_eq_true (by omega)
  · intro hmem
    have hbound := hph.bound
    rcases hph.staged.stage _ hmem with heq | heq
    · cases heq
    · simp only [TriggerPc.stage] at heq
      omega

/-- Steps of the server. -/
private def onServer (as : List ServerAction) : List ProcessAction := as.map .server

/-- Call `t` of `triggerShutdown` gets into `GracefulShutdown`, which starts `gracefulClose` on
    connection 0. -/
private def beginDrainRun (t : Nat) (call : CallId) : List ProcessAction :=
  [ProcessAction.onceDo t, .gracefulShutdown t [0], .closeListener t] ++
    onServer [.beginShutdown call, .bus (.beginShutdown call), .beginReturn, .drainConn,
      .conn 0 (.gracefulStart [0]), .conn 0 (.gracefulDrain (call + 1)),
      .bus (.drainCheck (call + 1))]

/-- The subscription of connection 0 is closed, and its client is told. -/
private def tellRun (call : CallId) : List ServerAction :=
  [.bus (.closeDeregister call), .bus (.closeOnce call), .bus (.closeMark call),
    .bus (.closeWait call), .bus (.closeEvents call), .conn 0 .gracefulDrained,
    .conn 0 (.deliverReceive 0), .conn 0 (.deliverEnd 0), .conn 0 .gracefulLock,
    .conn 0 .gracefulWait, .conn 0 .gracefulUnlock, .conn 0 .gracefulSend,
    .conn 0 .gracefulCloseTransport, .conn 0 .gracefulCloseNet, .drainReturn]

/-- The rest of the shutdown. -/
private def endRun (t : Nat) (call : CallId) : List ProcessAction :=
  [ProcessAction.gracefulReturn t, .closeBus t call] ++ onServer [.bus (.closeBroker call [])] ++
    [ProcessAction.closeBusReturn t, .adminShutdown t, .adminReturn t, .closeDone t, .onceReturn t]

/-- A request with a redirect gets into `Do` before a signal does. -/
theorem shutdown_once_redirect :
    ∃ log p, (Process.lts { redirect := [46] }).Reach Lts.Always log p ∧
      .entered 1 [120] ∈ log ∧
      (∀ t redirect, .entered t redirect ∈ log → t = 1 ∧ redirect = [120]) ∧
      .server (.conn 0 (.wrote .graceful ⟨typeShutdown, [0, 1, 120]⟩)) ∈ log ∧
      p.main = .exited .completed ∧ p.server.bus.broker.topics = ∅ := by
  obtain ⟨log, p, hr, hentered, htold, hmain⟩ :=
    Lts.reach_of_runWhere (M := Process.lts { redirect := [46] }) (G := Lts.Always) rfl
      ([ProcessAction.listen] ++ onServer (subscribeRun 0 0) ++
        [ProcessAction.request .post [120], .signal, .spawn 0] ++ beginDrainRun 1 1 ++
        onServer (tellRun 2) ++ endRun 1 3 ++
        [ProcessAction.onceDo 0, .acceptFails, .mainServed, .mainDone])
      (Q := fun r => .entered 1 [120] ∈ r.2 ∧
        .server (.conn 0 (.wrote .graceful ⟨typeShutdown, [0, 1, 120]⟩)) ∈ r.2 ∧
        r.1.main = .exited .completed)
      (by decide)
  obtain ⟨hunique, -, -, -, hend, -⟩ := shutdown_once hr
  refine ⟨log, p, hr, hentered, fun t redirect ho => ?_, htold, hmain, (hend (.inl hmain)).2.1⟩
  exact hunique t redirect 1 [120] ho hentered

/-! ## What is delivered -/

/-- The process keeps what a SHUTDOWN frame promises. At every moment of a run, also after the
    broker has been closed, and for every delivery goroutine of a connection to which
    `gracefulClose` has written a SHUTDOWN frame: it has ended; and either the last event it
    received is one that `deliver` gave up, all those before it having been delivered, or all
    that the queue of its subscription was ever given has been delivered. -/
theorem process_delivers {flags : Flags} {log : List ProcessObs} {p : Process} {k : ConnId}
    {c : Connection} {frame : Frame} {sub : SubPtr}
    (h : (Process.lts flags).Reach Lts.Always log p) (hc : p.server.connections k = some c)
    (htold : .server (.conn k (.wrote .graceful frame)) ∈ log) (hd : c.deliveries sub ≠ none) :
    c.deliveries sub = some .ended ∧
    ((∃ x, .server (.conn k (.delivered sub x false)) ∈ log ∧
        receivedFrom (busLog (Process.serverLog log)) sub =
          deliveredOk sub (connLog k (Process.serverLog log)) ++ [x]) ∨
      given (busLog (Process.serverLog log)) sub =
        deliveredOk sub (connLog k (Process.serverLog log))) := by
  have hs := Process.reach_server h
  have htold' := Process.mem_serverLog.mpr htold
  refine ⟨told_ended hs hc htold' hd, ?_⟩
  rcases told_outcome hs hc htold' hd with ⟨x, hmem, hrecv⟩ | ⟨hkept, hrecv, hex⟩
  · exact .inl ⟨x, Process.mem_serverLog.mp (mem_connLog.mp hmem), hrecv⟩
  · -- what `Broker.Close` discards is not from this queue
    have hnot : ∀ x, .discarded sub x ∉ busLog (Process.serverLog log) :=
      (told_kept hs hc htold' hd).resolve_left fun ⟨x, hmem⟩ => hkept x hmem
    rw [hex.given_eq_taken (Server.reach_bus hs), taken_of_not_discarded hnot, hrecv]
    exact .inr rfl

/-- Connection 0 publishes an event with this ID to the topic it is subscribed to. -/
private def ownEventRun (call : CallId) (id : UInt8) : List ServerAction :=
  [.peerSend 0 ⟨typePublish, [0, 1, id, 0, 0, 0, 1, 116, 0, 0, 0, 0, 0, 0]⟩, .conn 0 .serveRead,
    .conn 0 .serveDispatch, .conn 0 .isDraining, .conn 0 .isDrainingConn,
    .conn 0 (.publishCall call), .bus (.publishEnter call [0] []), .bus (.enqueueEnter call),
    .bus (.enqueueCheck call), .bus (.enqueueSend call), .bus (.enqueueReturn call),
    .bus (.publishLeave call []), .conn 0 .publishReturn, .conn 0 .serveSend]

/-- The event with this ID is delivered to connection 0, which acknowledges it. -/
private def confirmRun (id : UInt8) : List ServerAction :=
  [.conn 0 (.deliverReceive 0), .conn 0 (.deliverRegister 0), .conn 0 (.deliverSend 0),
    .peerSend 0 ⟨typeAck, [0, 1, id, 4, 0, 0]⟩, .conn 0 .serveRead, .conn 0 .serveDispatch,
    .conn 0 .acknowledgeSend, .conn 0 (.deliverAcknowledged 0), .conn 0 (.deliverLeave 0)]

set_option maxRecDepth 2048 in
/-- Two events are in the queue when the shutdown begins. When the broker has been closed both
    have been delivered. -/
theorem process_delivers_two :
    ∃ log p c, (Process.lts {}).Reach Lts.Always log p ∧ p.server.connections 0 = some c ∧
      p.shutdownDone = true ∧ c.deliveries 0 = some .ended ∧
      (given (busLog (Process.serverLog log)) 0).length = 2 ∧
      given (busLog (Process.serverLog log)) 0 =
        deliveredOk 0 (connLog 0 (Process.serverLog log)) := by
  obtain ⟨log, p, hr, c, hc, htold, hd, hdone, hlen, hrecv, hok⟩ :=
    Lts.reach_of_runWhere (M := Process.lts {}) (G := Lts.Always) rfl
      ([ProcessAction.listen, .signal] ++
        onServer (subscribeRun 0 0 ++ ownEventRun 1 1 ++ ownEventRun 2 2) ++
        beginDrainRun 0 3 ++ onServer (confirmRun 1 ++ confirmRun 2 ++
          [ServerAction.bus (.drainTick 4), .bus (.drainCheck 4)] ++ tellRun 4) ++ endRun 0 5)
      (Q := fun r => ∃ c ∈ r.1.server.connections 0,
        .server (.conn 0 (.wrote .graceful ⟨typeShutdown, [0, 0]⟩)) ∈ r.2 ∧
        c.deliveries 0 ≠ none ∧ r.1.shutdownDone = true ∧
        (given (busLog (Process.serverLog r.2)) 0).length = 2 ∧
        (receivedFrom (busLog (Process.serverLog r.2)) 0).length = 2 ∧
        (deliveredOk 0 (connLog 0 (Process.serverLog r.2))).length = 2)
      (by decide)
  obtain ⟨hended, ⟨x, -, heq⟩ | hall⟩ := process_delivers hr hc htold hd
  · -- nothing was given up
    rw [heq, List.length_append, hok] at hrecv
    cases hrecv
  · exact ⟨log, p, c, hr, hc, hdone, hended, hlen, hall⟩

/-! ## A shutdown before the listener is stored -/

/-- `net.Listen` does not fail, and `Accept` only when its listener has been closed. -/
def ListenerWorks (p : Process) (a : ProcessAction) : Prop :=
  a ≠ .listenFails ∧ (a = .acceptFails → p.listener = .closed)

instance (p : Process) (a : ProcessAction) : Decidable (ListenerWorks p a) :=
  inferInstanceAs (Decidable (_ ∧ _))

/-- `GracefulShutdown` has found no listener to close, and nobody will close one later. -/
structure Process.Deaf (p : Process) : Prop where
  once : p.once ≠ .fresh
  listener : p.listener ≠ .closed
  accepting : ∀ failed, p.accepting ≠ .returned failed
  main : p.main = .serving
  triggers : ∀ pc ∈ p.triggers, pc.stage ≠ 1 ∧ pc.stage ≠ 2

section Deaf

variable {flags : Flags} {p p' : Process} {a : ProcessAction} {log os : List ProcessObs}

/-- Before `ListenAndServe` has stored its listener. -/
theorem unset_inv (h : (Process.lts flags).Reach ListenerWorks log p)
    (hunset : p.listener = .unset) :
    p.accepting = .listen ∧ p.main = .serving ∧ .closeListener ∉ p.triggers := by
  refine h.invariant (P := fun _ p => p.listener = .unset →
    p.accepting = .listen ∧ p.main = .serving ∧ .closeListener ∉ p.triggers) ?_ ?_ hunset
  · rintro _ rfl _
    exact ⟨rfl, rfl, by simp [newProcess]⟩
  intro log p a p' os ih hworks hstep hunset'
  cases (process_step_effect hstep).1 with
  | listen | closeListener => cases hunset'
  | listenFails => exact absurd rfl hworks.1
  | acceptFails =>
    have hclosed := hworks.2 rfl
    rw [show p.listener = .unset from hunset'] at hclosed
    cases hclosed
  | mainFailed _ hacc | mainServed _ hacc =>
    rw [(ih hunset').1] at hacc
    cases hacc
  | mainDone hmain | mainTimeout hmain =>
    rw [(ih hunset').2.1] at hmain
    cases hmain
  | spawn | signal =>
    obtain ⟨hacc, hmain, hnot⟩ := ih hunset'
    refine ⟨hacc, hmain, fun hmem => ?_⟩
    rcases List.mem_append.mp hmem with hold | hnew
    · exact hnot hold
    · cases List.mem_singleton.mp hnew
  | shutdown =>
    obtain ⟨hacc, hmain, hnot⟩ := ih hunset'
    refine ⟨hacc, hmain, fun hmem => hnot (mem_of_set hmem ?_)⟩
    rw [if_pos (show p.listener = .unset from hunset')]
    simp
  | enter | skip | shutdownClosed | gracefulReturn | closeBus | closeBusReturn | adminShutdown
  | adminReturn | panic | closeDone | onceReturn =>
    obtain ⟨hacc, hmain, hnot⟩ := ih hunset'
    exact ⟨hacc, hmain, fun hmem => hnot (mem_of_set hmem (by simp))⟩
  | server | refused | request => exact ih hunset'

theorem ProcessEffect.deaf (heff : ProcessEffect flags p a p' os) (hworks : ListenerWorks p a)
    (h : p.Deaf) : p'.Deaf := by
  -- no call of `triggerShutdown` gets back to the listener
  have hset : ∀ {t : Nat} {pc : TriggerPc}, pc.stage ≠ 1 → pc.stage ≠ 2 →
      ∀ q ∈ p.triggers.set t pc, q.stage ≠ 1 ∧ q.stage ≠ 2 := by
    intro t pc h1 h2 q hq
    rcases List.mem_or_eq_of_mem_set hq with hold | rfl
    · exact h.triggers q hold
    · exact ⟨h1, h2⟩
  have happend : ∀ redirect, ∀ q ∈ p.triggers ++ [.enter redirect], q.stage ≠ 1 ∧ q.stage ≠ 2 := by
    intro redirect q hq
    rcases List.mem_append.mp hq with hold | hnew
    · exact h.triggers q hold
    · rw [List.mem_singleton.mp hnew]
      simp
  cases heff with
  | server | refused | request => exact ⟨h.once, h.listener, h.accepting, h.main, h.triggers⟩
  | listen => exact ⟨h.once, by simp, by simp, h.main, h.triggers⟩
  | listenFails => exact absurd rfl hworks.1
  | acceptFails => exact absurd (hworks.2 rfl) h.listener
  | spawn | signal => exact ⟨h.once, h.listener, h.accepting, h.main, happend _⟩
  | enter _ honce => exact absurd honce h.once
  | skip | gracefulReturn | closeBus | closeBusReturn | adminShutdown | adminReturn | panic
  | closeDone => exact ⟨h.once, h.listener, h.accepting, h.main, hset (by simp) (by simp)⟩
  | onceReturn => exact ⟨by simp, h.listener, h.accepting, h.main, hset (by simp) (by simp)⟩
  | shutdownClosed hpc | shutdown hpc =>
    exact absurd rfl (h.triggers _ (List.mem_of_getElem? hpc)).1
  | closeListener hpc => exact absurd rfl (h.triggers _ (List.mem_of_getElem? hpc)).2
  | mainFailed _ hacc | mainServed _ hacc => exact absurd hacc (h.accepting _)
  | mainDone hmain | mainTimeout hmain =>
    rw [h.main] at hmain
    cases hmain

end Deaf

/-- A shutdown that begins too early keeps `main` from returning. If `GracefulShutdown` closes
    the server while `ListenAndServe` has not stored its listener yet, then nobody closes the
    listener afterwards: `Serve` goes on to accept connections and to close them. As long as
    `net.Listen` does not fail, and `Accept` fails only on a listener that has been closed
    (`ListenerWorks`), `main` stays at `<-serverDone` for ever, whether or not `shutdownDone` has
    been closed. -/
theorem early_shutdown_hangs {flags : Flags} {log : List ProcessObs} {p : Process}
    (h : (Process.lts flags).Reach ListenerWorks log p) (hclosed : p.server.closed = true)
    (hunset : p.listener = .unset) {log' : List ProcessObs} {p' : Process}
    (hsteps : (Process.lts flags).Steps ListenerWorks p log' p') :
    p'.main = .serving ∧ ∀ outcome, .exited outcome ∉ log' := by
  obtain ⟨n, hph⟩ := phase_inv h
  obtain ⟨hacc, hmain, hnot⟩ := unset_inv h hunset
  have hn : 2 ≤ n := of_decide_eq_true (hph.at_stage.closed.symm.trans hclosed)
  have hdeaf : p.Deaf := by
    refine ⟨?_, by simp [hunset], by simp [hacc], hmain, fun pc hpc => ?_⟩
    · rw [hph.at_stage.once, if_neg (by omega)]
      split <;> simp
    · constructor
      · rcases hph.staged.stage pc hpc with heq | heq <;> omega
      · -- the only call at this stage would be at `listener.Close()`
        intro heq
        cases pc with
        | closeListener => exact hnot hpc
        | _ => cases heq
  have hall : p'.Deaf ∧ ∀ outcome, .exited outcome ∉ log' := by
    refine hsteps.invariant (P := fun log' p' => p'.Deaf ∧ ∀ outcome, .exited outcome ∉ log')
      ⟨hdeaf, by simp⟩ ?_
    rintro log' p₁ a p₂ os ⟨hdeaf, hlog⟩ hworks hstep
    have heff := (process_step_effect hstep).1
    have hdeaf' := heff.deaf hworks hdeaf
    refine ⟨hdeaf', fun outcome ho => ?_⟩
    rcases List.mem_append.mp ho with hold | hnew
    · exact hlog outcome hold
    · have hserving := hdeaf'.main
      cases heff with
      | mainFailed | mainDone | mainTimeout => cases hserving
      | _ => simp at hnew
  exact ⟨hall.1.main, hall.2⟩

/-- A signal arrives before the process listens. The shutdown goes through all its stages, and
    `main` never returns. -/
theorem early_shutdown_hangs_signal :
    ∃ log p, (Process.lts {}).Reach ListenerWorks log p ∧ p.shutdownDone = true ∧
      p.listener = .unset ∧
      ∀ log' p', (Process.lts {}).Steps ListenerWorks p log' p' → p'.main = .serving := by
  obtain ⟨log, p, hr, hclosed, hunset, hdone⟩ :=
    Lts.reach_of_runWhere (M := Process.lts {}) (G := ListenerWorks) rfl
      ([ProcessAction.signal, .onceDo 0, .gracefulShutdown 0 []] ++
        onServer [.beginShutdown 0, .bus (.beginShutdown 0), .beginReturn, .drainReturn] ++
        endRun 0 1)
      (Q := fun r => r.1.server.closed = true ∧ r.1.listener = .unset ∧ r.1.shutdownDone = true)
      (by decide)
  exact ⟨log, p, hr, hdone, hunset, fun log' p' hsteps =>
    (early_shutdown_hangs hr hclosed hunset hsteps).1⟩

end EventBus
