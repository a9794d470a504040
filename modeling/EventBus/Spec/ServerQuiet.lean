import EventBus.ForStd.Counts
import EventBus.Spec.ServerShutdown

/-!
# No event after SHUTDOWN

`gracefulClose` takes `c.deliveryMu`, which `subscribe` holds from its check of the draining
flags until it has started the delivery goroutine, and waits for `c.deliveryWG`. A `subscribe`
that comes later finds `c.draining` set. So when the SHUTDOWN frame is written, every delivery
goroutine has ended and none will be started: the connection is `Quiet`.

## Key results

- `delivering_counted`: `c.deliveryWG` counts the delivery goroutines that run
- `shutting_inv`: how far `gracefulClose` has silenced the connection
- `no_event_after_shutdown`: no EVENT frame follows the SHUTDOWN frame
-/

namespace EventBus

variable {c : Connection} {sub : SubPtr} {pc pc' : DeliverPc} {bus : Option Action}
  {obs : List ConnObs} {s s' : Server} {k : ConnId} {act : ConnAction} {out : Out}

/-! ## Goroutines that run -/

/-- The delivery goroutine of `sub` has been started and has not ended. -/
def Connection.Delivering (c : Connection) (sub : SubPtr) : Prop :=
  ∃ pc, c.deliveries sub = some pc ∧ pc ≠ .ended

theorem Connection.delivering_setDelivery {sub' : SubPtr} :
    (c.setDelivery sub pc).Delivering sub' ↔
      (sub' = sub ∧ pc ≠ .ended) ∨ (sub' ≠ sub ∧ c.Delivering sub') := by
  unfold Connection.Delivering
  by_cases hsub : sub' = sub
  · subst hsub
    simp
  · simp [Connection.setDelivery_of_ne hsub, hsub]

section Move

variable {a : ConnAction}

/-- A delivery goroutine that moves has not ended; that it ends is a step of its own. -/
theorem DeliverMove.not_ended (h : DeliverMove s c sub a pc pc' bus obs) :
    pc ≠ .ended ∧ pc' ≠ .ended := by
  cases h with
  | timeout =>
    refine ⟨by simp, ?_⟩
    unfold Connection.nextAttempt
    split <;> simp
  | _ => simp

/-- A goroutine that goes from one program counter to another runs on. -/
theorem Connection.delivering_go (hpc : c.deliveries sub = some pc) (hne : pc ≠ .ended)
    (hne' : pc' ≠ .ended) (sub' : SubPtr) :
    (c.setDelivery sub pc').Delivering sub' ↔ c.Delivering sub' := by
  rw [Connection.delivering_setDelivery]
  by_cases hsub : sub' = sub
  · subst hsub
    exact ⟨fun _ => ⟨pc, hpc, hne⟩, fun _ => .inl ⟨rfl, hne'⟩⟩
  · simp [hsub]

/-- `c.deliveryWG` follows the goroutines. -/
theorem ConnMove.counted (h : ConnMove s c a out)
    (hfresh : ∀ sub, c.serve.held = some sub → c.deliveries sub = none)
    (hcount : Counts c.Delivering c.deliveryWG) :
    Counts out.conn.Delivering out.conn.deliveryWG := by
  cases h with
  | @spawn sub hpc =>
    -- `subscribe` holds the subscription, and its goroutine has not been started before
    have hnone := hfresh sub (by rw [hpc]; rfl)
    refine hcount.enter (c := sub) ?_ fun sub' => ?_
    · rintro ⟨pc, hsome, -⟩
      rw [hnone] at hsome
      cases hsome
    · refine Connection.delivering_setDelivery.trans ?_
      by_cases hsub : sub' = sub
      · simp [hsub]
      · simp [hsub]
  | @endDelivery sub hpc =>
    refine hcount.leave (c := sub) ⟨_, hpc, by simp⟩ fun sub' => ?_
    refine Connection.delivering_setDelivery.trans ?_
    simp
  | deliver hpc hm =>
    obtain ⟨hne, hne'⟩ := hm.not_ended
    exact hcount.congr (Connection.delivering_go hpc hne hne')
  | register hpc => exact hcount.congr (Connection.delivering_go hpc (by simp) (by simp))
  | acknowledged hpc =>
    refine hcount.congr (Connection.delivering_go hpc (by simp) ?_)
    unfold Connection.nextAttempt
    split
    · simp
    · split <;> simp
  | leave hpc =>
    refine hcount.congr (Connection.delivering_go hpc (by simp) ?_)
    split <;> simp
  | _ => exact hcount

end Move

/-- `c.deliveryWG` counts the delivery goroutines that run. -/
theorem delivering_counted {config : Config} {G : Server → ServerAction → Prop}
    {log : List ServerObs} (h : (Server.lts config).Reach G log s) (hc : s.connections k = some c) :
    Counts c.Delivering c.deliveryWG := by
  refine Server.conn_induct h hc (I := fun _ _ c => Counts c.Delivering c.deliveryWG) ?_ ?_
  · exact fun _ => Counts.zero fun sub hd => by
      obtain ⟨pc, hpc, -⟩ := hd
      cases hpc
  · intro log s a s' os c c' obs b hr _ hc _ _ _ hch hcount
    cases hch with
    | move hm =>
      exact hm.counted (fun sub hheld => (own_inv hr).fresh k c sub hc (.inl hheld)) hcount
    | _ => exact hcount

/-! ## Requests that start a goroutine -/

/-- `subscribe` has passed its check of the draining flags and has started no goroutine yet. -/
def ServePc.adding : ServePc → Bool
  | .subscribeCall _ | .subscribeWait .. | .subscribeStore .. | .subscribeReplace ..
  | .subscribeReplaceWait .. | .subscribeSpawn _ => true
  | _ => false

theorem ServePc.adding_of_plain {pc : ServePc} (h : pc.plain = true) : pc.adding = false := by
  cases pc <;> first | rfl | cases h

/-- `subscribe` holds `c.deliveryMu` meanwhile. -/
theorem Connection.not_adding (h : c.subscribing = false) :
    c.serve.adding = false := by
  unfold Connection.subscribing at h
  cases hpc : c.serve <;> first | rfl | (rw [hpc] at h; cases h)

/-- No delivery goroutine of the connection runs, and `subscribe` will start none. -/
structure Connection.Quiet (c : Connection) : Prop where
  draining : c.draining = true
  adding : c.serve.adding = false
  ended : ∀ sub, ¬c.Delivering sub

section Quiet

variable {c' : Connection} {a : ServerAction} {bos : List Obs}

/-- `subscribe` does not pass its check on a draining connection. -/
theorem ServeMove.adding {pc pc' : ServePc} (h : ServeMove s c act pc pc' bus obs)
    (hd : c.draining = true) (hnot : pc.adding = false) : pc'.adding = false := by
  cases h with
  | subscribeAllowed hallowed =>
    rw [hd] at hallowed
    cases hallowed
  | subscribeCall | subscribeReturn | subscribeOld | subscribeReplace => cases hnot
  | subscribe | ackInvalid | unsupported | publishDraining | publishAllowed | subscribeError
  | publishReturn | send | sendReport | sendIgnore => exact ServePc.adding_of_plain (by simp)
  | _ => rfl

/-- While the connection drains, no `subscribe` passes its check. -/
theorem ConnMove.adding (h : ConnMove s c act out) (hd : c.draining = true)
    (hnot : c.serve.adding = false) : out.conn.serve.adding = false := by
  cases h with
  | serve hpc hm =>
    subst hpc
    exact hm.adding hd hnot
  | connect => exact ServePc.adding_of_plain (plain_connectNext _)
  | store hpc | replaced hpc | spawn hpc =>
    rw [hpc] at hnot
    cases hnot
  | read | acknowledge | unsubscribe | abort => rfl
  | _ => exact hnot

/-- `c.draining` is never reset. -/
theorem ConnMove.draining (h : ConnMove s c act out) (hd : c.draining = true) :
    out.conn.draining = true := by
  cases h with
  | gracefulStart => rfl
  | _ => exact hd

/-- Where no goroutine runs or is about to be started, the goroutines stay as they are. -/
theorem ConnMove.deliveries_quiet (h : ConnMove s c act out) (hquiet : c.Quiet) :
    out.conn.deliveries = c.deliveries := by
  have hrun : ∀ {sub pc}, c.deliveries sub = some pc → pc ≠ .ended → False :=
    fun hpc hne => hquiet.ended _ ⟨_, hpc, hne⟩
  cases h with
  | spawn hpc =>
    have hnot := hquiet.adding
    rw [hpc] at hnot
    cases hnot
  | deliver hpc hm => exact (hrun hpc hm.not_ended.1).elim
  | register hpc | acknowledged hpc | leave hpc | endDelivery hpc =>
    exact (hrun hpc (by simp)).elim
  | _ => rfl

/-- A quiet connection stays quiet. -/
theorem ConnMove.quiet (h : ConnMove s c act out) (hquiet : c.Quiet) : out.conn.Quiet where
  draining := h.draining hquiet.draining
  adding := h.adding hquiet.draining hquiet.adding
  ended sub hd := by
    unfold Connection.Delivering at hd
    rw [h.deliveries_quiet hquiet] at hd
    exact hquiet.ended sub hd

/-- A quiet connection stays quiet, with the goroutines it has. -/
theorem ConnChange.quiet (h : ConnChange s s' bos k c a c' obs) (hquiet : c.Quiet) :
    c'.Quiet ∧ c'.deliveries = c.deliveries := by
  cases h with
  | move hm => exact ⟨hm.quiet hquiet, hm.deliveries_quiet hquiet⟩
  | drain =>
    refine ⟨⟨?_, hquiet.adding, hquiet.ended⟩, rfl⟩
    show (c.draining || !c.closed) = true
    rw [hquiet.draining]
    rfl
  | _ => exact ⟨⟨hquiet.draining, hquiet.adding, hquiet.ended⟩, rfl⟩

end Quiet

/-! ## gracefulClose -/

/-- `gracefulClose` has set `c.draining` and has not written the SHUTDOWN frame yet. -/
def GracefulPc.draining : GracefulPc → Bool
  | .drain _ | .drainWait .. | .wait | .unlock | .shutdown => true
  | _ => false

/-- `gracefulClose` has also taken `c.deliveryMu`. -/
def GracefulPc.locked : GracefulPc → Bool
  | .wait | .unlock | .shutdown => true
  | _ => false

/-- `gracefulClose` has also waited for the delivery goroutines. -/
def GracefulPc.waited : GracefulPc → Bool
  | .unlock | .shutdown => true
  | _ => false

theorem GracefulPc.draining_of_locked {pc : GracefulPc} (h : pc.locked = true) :
    pc.draining = true := by
  cases pc <;> first | rfl | cases h

theorem GracefulPc.locked_of_waited {pc : GracefulPc} (h : pc.waited = true) :
    pc.locked = true := by
  cases pc <;> first | rfl | cases h

/-- How far `gracefulClose` has silenced the connection. -/
structure Connection.ShuttingInv (c : Connection) (L : List ConnObs) : Prop where
  draining : c.graceful.draining = true → c.draining = true
  locked : c.graceful.locked = true → c.serve.adding = false
  waited : c.graceful.waited = true → ∀ sub, ¬c.Delivering sub
  told : ∀ frame, .wrote .graceful frame ∈ L → c.Quiet

/-- The connection is quiet when `gracefulClose` has waited. -/
theorem Connection.ShuttingInv.quiet {L : List ConnObs} (h : c.ShuttingInv L)
    (hpc : c.graceful.waited = true) : c.Quiet :=
  have hlocked := GracefulPc.locked_of_waited hpc
  ⟨h.draining (GracefulPc.draining_of_locked hlocked), h.locked hlocked, h.waited hpc⟩

section Shutting

variable {c' : Connection} {a : ServerAction} {bos : List Obs} {L : List ConnObs}

/-- `gracefulClose` sets `c.draining` before it drains. -/
theorem ConnMove.graceful_drains (h : ConnMove s c act out)
    (hout : out.conn.graceful.draining = true) :
    c.graceful.draining = true ∨ out.conn.draining = true := by
  cases h with
  | graceful hpc hm =>
    rw [hpc]
    cases hm with
    | drain | drained | lock | wait | unlock => exact .inl rfl
    | _ => cases hout
  | gracefulStart => exact .inr rfl
  | drainFailed | closeTransport | gracefulNet => cases hout
  | _ => exact .inl hout

/-- `gracefulClose` takes `c.deliveryMu` when no `subscribe` holds it. -/
theorem ConnMove.graceful_locks (h : ConnMove s c act out)
    (hout : out.conn.graceful.locked = true) :
    c.graceful.locked = true ∨ (c.graceful = .drain [] ∧ c.subscribing = false) := by
  cases h with
  | graceful hpc hm =>
    rw [hpc]
    cases hm with
    | wait | unlock => exact .inl rfl
    | lock hfree => exact .inr ⟨rfl, hfree⟩
    | _ => cases hout
  | gracefulStart | drainFailed | closeTransport | gracefulNet => cases hout
  | _ => exact .inl hout

/-- `c.deliveryWG.Wait()` returns at the count zero. -/
theorem ConnMove.graceful_waits (h : ConnMove s c act out)
    (hout : out.conn.graceful.waited = true) :
    c.graceful.waited = true ∨ (c.graceful = .wait ∧ c.deliveryWG = 0) := by
  cases h with
  | graceful hpc hm =>
    rw [hpc]
    cases hm with
    | unlock => exact .inl rfl
    | wait hzero => exact .inr ⟨rfl, hzero⟩
    | _ => cases hout
  | gracefulStart | drainFailed | closeTransport | gracefulNet => cases hout
  | _ => exact .inl hout

/-- A step of the connection keeps the order in which `gracefulClose` works. -/
theorem ConnMove.shutting (h : ConnMove s c act out) (hinv : c.ShuttingInv L)
    (hcount : Counts c.Delivering c.deliveryWG) : out.conn.ShuttingInv (L ++ out.obs) where
  draining hout := by
    rcases h.graceful_drains hout with hdraining | hset
    · exact h.draining (hinv.draining hdraining)
    · exact hset
  locked hout := by
    -- when `gracefulClose` takes the lock, `subscribe` is not between its check and its end
    rcases h.graceful_locks hout with hlocked | ⟨hdrain, hfree⟩
    · exact h.adding (hinv.draining (GracefulPc.draining_of_locked hlocked)) (hinv.locked hlocked)
    · exact h.adding (hinv.draining (by rw [hdrain]; rfl)) (Connection.not_adding hfree)
  waited hout := by
    rcases h.graceful_waits hout with hwaited | ⟨hwait, hzero⟩
    · exact (h.quiet (hinv.quiet hwaited)).ended
    · -- `c.deliveryWG.Wait()` has returned: a goroutine that runs would be counted
      have hdraining := hinv.draining (by rw [hwait]; rfl)
      have hlocked := hinv.locked (by rw [hwait]; rfl)
      refine (h.quiet ⟨hdraining, hlocked, fun sub hrun => ?_⟩).ended
      have hpos := hcount.pos hrun
      omega
  told frame ho := by
    rcases List.mem_append.mp ho with hold | hnew
    · exact h.quiet (hinv.told frame hold)
    · rcases h.wrote hnew with ⟨hw, -⟩ | ⟨-, _, -, -, hpc⟩ | ⟨_, _, hw⟩
      · cases hw
      · -- `gracefulClose` writes after it has waited
        exact h.quiet (hinv.quiet (by rw [hpc]; rfl))
      · cases hw

theorem ConnChange.shutting (h : ConnChange s s' bos k c a c' obs) (hinv : c.ShuttingInv L)
    (hcount : Counts c.Delivering c.deliveryWG) : c'.ShuttingInv (L ++ obs) := by
  have hquiet := h.quiet
  cases h with
  | move hm => exact hm.shutting hinv hcount
  | drain =>
    rw [List.append_nil]
    exact ⟨nofun, nofun, nofun, fun frame ho => (hquiet (hinv.told frame ho)).1⟩
  | _ =>
    rw [List.append_nil]
    exact ⟨hinv.draining, hinv.locked, hinv.waited,
      fun frame ho => (hquiet (hinv.told frame ho)).1⟩

end Shutting

section Run

variable {config : Config} {G : Server → ServerAction → Prop} {log : List ServerObs}

/-- `gracefulClose` works in this order in every run. -/
theorem shutting_inv (h : (Server.lts config).Reach G log s) (hc : s.connections k = some c) :
    c.ShuttingInv (connLog k log) := by
  refine Server.conn_induct h hc (I := fun L _ c => c.ShuttingInv L) ?_ ?_
  · exact fun _ => ⟨nofun, nofun, nofun, nofun⟩
  · intro log s a s' os c c' obs b hr _ hc _ _ _ hch hinv
    exact hch.shutting hinv (delivering_counted hr hc)

/-- A connection that is quiet stays so whatever the server does. -/
theorem quiet_steps {log' : List ServerObs} (hc : s.connections k = some c) (hquiet : c.Quiet)
    (hsteps : (Server.lts config).Steps G s log' s') :
    ∃ c', s'.connections k = some c' ∧ c'.Quiet ∧ c'.deliveries = c.deliveries := by
  refine hsteps.stable (P := fun s' => ∃ c', s'.connections k = some c' ∧ c'.Quiet ∧
    c'.deliveries = c.deliveries) ⟨c, hc, hquiet, rfl⟩ ?_
  rintro s₁ a s₂ os ⟨c₁, hc₁, hq₁, hd₁⟩ _ hstep
  rcases (server_step_effect hstep).conn_change k with ⟨hnone, -⟩ | ⟨c₁', c₂, hc₁', hc₂, hch⟩
  · rw [hnone] at hc₁
    cases hc₁
  · obtain rfl := Option.some.inj (hc₁'.symm.trans hc₁)
    obtain ⟨hq₂, hd₂⟩ := hch.quiet hq₁
    exact ⟨c₂, hc₂, hq₂, hd₂.trans hd₁⟩

/-- A goroutine that writes an EVENT frame runs. -/
theorem ConnMove.wrote_delivering {ch : AckChan} {frame : Frame} (h : ConnMove s c act out)
    (ho : .wrote (.delivery sub ch) frame ∈ out.obs) :
    c.Delivering sub ∧ ∀ frame', .wrote .graceful frame' ∉ out.obs := by
  cases h with
  | serve _ hm =>
    cases hm with
    | _ => simp at ho
  | graceful _ hm =>
    cases hm with
    | _ => simp at ho
  | deliver hpc hm =>
    cases hm with
    | send =>
      obtain ⟨hw, -⟩ := ConnObs.wrote.inj (List.mem_singleton.mp ho)
      obtain ⟨rfl, rfl⟩ := Writer.delivery.inj hw
      exact ⟨⟨_, hpc, by simp⟩, by simp⟩
    | _ => simp at ho
  | _ => simp at ho

/-- An EVENT frame is not written after `gracefulClose` has written its frame. -/
theorem not_delivered_after_told (h : (Server.lts config).Reach G log s) (shutdown : Frame)
    (sub : SubPtr) (ch : AckChan) (event : Frame) :
    ¬log.Precedes (.conn k (.wrote .graceful shutdown))
      (.conn k (.wrote (.delivery sub ch) event)) := by
  refine h.not_precedes (Q := fun s => ∃ c, s.connections k = some c ∧ c.Quiet) ?_ ?_
  · intro log s hr ho
    rw [← mem_connLog] at ho
    cases hc : s.connections k with
    | none =>
      rw [connLog_eq_nil hr hc] at ho
      cases ho
    | some c => exact ⟨c, rfl, (shutting_inv hr hc).told shutdown ho⟩
  · intro log s a s' os hr hstep ho
    simp only [← mem_connLog] at ho ⊢
    rcases (server_step_effect hstep).conn_change k with ⟨-, hnil, -⟩ | ⟨c, c', hc, -, hch⟩
    · rw [hnil] at ho
      cases ho
    · generalize connLog k os = obs at ho hch ⊢
      cases hch with
      | move hm =>
        -- a goroutine that writes runs, so that the connection is not quiet
        obtain ⟨hrun, hnot⟩ := hm.wrote_delivering ho
        refine ⟨?_, hnot shutdown⟩
        rintro ⟨c₁, hc₁, hquiet⟩
        obtain rfl := Option.some.inj (hc₁.symm.trans hc)
        exact hquiet.ended sub hrun
      | _ => cases ho

/-- When `gracefulClose` writes the SHUTDOWN frame, every delivery goroutine has ended, and
    from then on none is started; so no EVENT frame follows a SHUTDOWN frame. -/
theorem no_event_after_shutdown (h : (Server.lts config).Reach G log s) :
    (∀ c, s.connections k = some c → c.graceful = .shutdown →
      ∀ log' s', (Server.lts config).Steps G s log' s' →
        ∃ c', s'.connections k = some c' ∧ c'.deliveries = c.deliveries ∧
          ∀ sub pc, c'.deliveries sub = some pc → pc = .ended) ∧
    ∀ writer shutdown writer' event, shutdown.type = typeShutdown → event.type = typeEvent →
      ¬log.Precedes (.conn k (.wrote writer shutdown)) (.conn k (.wrote writer' event)) := by
  constructor
  · intro c hc hpc log' s' hsteps
    have hquiet := (shutting_inv h hc).quiet (by rw [hpc]; rfl)
    obtain ⟨c', hc', hq', hd'⟩ := quiet_steps hc hquiet hsteps
    refine ⟨c', hc', hd', fun sub pc hsome => ?_⟩
    by_contra hne
    exact hq'.ended sub ⟨pc, hsome, hne⟩
  · intro writer shutdown writer' event hshutdown hevent hprec
    have hfirst : .wrote writer shutdown ∈ connLog k log := mem_connLog.mpr hprec.mem_left
    have hsecond : .wrote writer' event ∈ connLog k log := mem_connLog.mpr hprec.mem_right
    -- SHUTDOWN frames are written by `gracefulClose`, EVENT frames by delivery goroutines
    obtain rfl := shutdown_writer h hfirst hshutdown
    cases hc : s.connections k with
    | none =>
      rw [connLog_eq_nil h hc] at hfirst
      cases hfirst
    | some c =>
      obtain ⟨sub, ch, rfl⟩ := event_writer h hc hsecond hevent
      exact not_delivered_after_told h shutdown sub ch event hprec

end Run

/-- One event is delivered and acknowledged before the shutdown. A SUBSCRIBE frame that comes
    when the SHUTDOWN frame is about to be written is refused. -/
theorem no_event_after_shutdown_late :
    ∃ log s c log' s', (Server.lts ⟨1, 0, 0, .block⟩).Reach Lts.Always log s ∧
      s.connections 0 = some c ∧ c.graceful = .shutdown ∧ c.deliveries 0 = some .ended ∧
      (Server.lts ⟨1, 0, 0, .block⟩).Steps Lts.Always s log' s' ∧
      .conn 0 (.read ⟨typeSubscribe, [0, 1, 116]⟩) ∈ log' ∧
      .conn 0 (.wrote .graceful ⟨typeShutdown, [0, 0]⟩) ∈ log' ∧
      ∃ c', s'.connections 0 = some c' ∧ c'.deliveries = c.deliveries := by
  obtain ⟨log, s, hr, c, hc, hpc, hended, ⟨s', log'⟩, hrun, hread, hwrote⟩ :=
    Lts.reach_of_runWhere (M := Server.lts ⟨1, 0, 0, .block⟩) (G := Lts.Always) rfl
      (subscribeRun 0 0 ++ publishRun 1 [1] 0 ++
        [ServerAction.conn 0 (.deliverReceive 0), .conn 0 (.deliverRegister 0),
          .conn 0 (.deliverSend 0), .peerSend 0 ⟨typeAck, [0, 1, 1, 4, 0, 0]⟩, .conn 0 .serveRead,
          .conn 0 .serveDispatch, .conn 0 .acknowledgeSend, .conn 0 (.deliverAcknowledged 0),
          .conn 0 (.deliverLeave 0)] ++
        shutdownRun 0 2 ++
        [ServerAction.conn 0 (.gracefulStart [0]), .conn 0 (.gracefulDrain 3), .bus (.drainCheck 3),
          .bus (.closeDeregister 3), .bus (.closeOnce 3), .bus (.closeMark 3), .bus (.closeWait 3),
          .bus (.closeEvents 3), .conn 0 .gracefulDrained, .conn 0 (.deliverReceive 0),
          .conn 0 (.deliverEnd 0), .conn 0 .gracefulLock, .conn 0 .gracefulWait,
          .conn 0 .gracefulUnlock])
      (Q := fun r => ∃ c ∈ r.1.connections 0, c.graceful = .shutdown ∧
        c.deliveries 0 = some .ended ∧
        ∃ r' ∈ (Server.lts ⟨1, 0, 0, .block⟩).runWhere Lts.Always r.1
          [.peerSend 0 ⟨typeSubscribe, [0, 1, 116]⟩, .conn 0 .serveRead, .conn 0 .serveDispatch,
            .conn 0 .subscribeLock, .conn 0 .isDraining, .conn 0 .isDrainingConn,
            .conn 0 .gracefulSend, .conn 0 .subscribeUnlock],
          .conn 0 (.read ⟨typeSubscribe, [0, 1, 116]⟩) ∈ r'.2 ∧
          .conn 0 (.wrote .graceful ⟨typeShutdown, [0, 0]⟩) ∈ r'.2)
      (by decide)
  have hsteps := Lts.steps_of_runWhere _ s s' log' hrun
  obtain ⟨c', hc', hsame, -⟩ := (no_event_after_shutdown hr).1 c hc hpc log' s' hsteps
  exact ⟨log, s, c, log', s', hr, hc, hpc, hended, hsteps, hread, hwrote, c', hc', hsame⟩

end EventBus
