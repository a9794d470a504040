import EventBus.Spec.ServerOrderly
import EventBus.Spec.WireRequests

/-!
# When GracefulShutdown or Close has returned

Both calls take a copy of the active connections and wait: `GracefulShutdown` for the
`gracefulClose` goroutines it has started, `Close` for every `serve`. Where such a call
stands says what has become of each connection (`sweep_inv`), and which socket is still
to be closed, and by whom, can be read off the program counters (`net_inv`). Behind
`Close` nothing is left that reads or writes (`close_final`).

## Key results

- `sweep_inv`: what the program counter of the two calls says about every connection
- `net_inv`: a closed connection has closed its socket, or somebody is about to
- `graceful_returned`, `close_returned`: the connections when the calls have returned
- `close_final`: a server behind `Close` neither reads nor writes
-/

namespace EventBus

variable {s s' : Server} {c : Connection} {act : ConnAction} {out : Out} {a : ServerAction}
  {os : List ServerObs}

/-! ## What is not done twice -/

section Move

variable {k : ConnId} {c' : Connection} {bos : List Obs} {obs : List ConnObs}

/-- A `serve` that has returned does not run again. -/
theorem ConnMove.serve_finished (h : ConnMove s c act out) (hfin : c.serve = .finished) :
    out.conn.serve = .finished := by
  cases h with
  | serve hpc hm =>
    rw [hfin] at hpc
    subst hpc
    cases hm
  | connect _ hpc | read _ hpc | store hpc | replaced hpc | spawn hpc | acknowledge hpc
  | unsubscribe hpc | abort hpc =>
    rw [hfin] at hpc
    cases hpc
  | _ => exact hfin

/-- A `gracefulClose` that has returned does not run again. -/
theorem ConnMove.graceful_finished (h : ConnMove s c act out) (hfin : c.graceful = .finished) :
    out.conn.graceful = .finished := by
  cases h with
  | graceful hpc hm =>
    rw [hfin] at hpc
    subst hpc
    cases hm
  | gracefulStart hpc | drainFailed hpc | closeTransport hpc =>
    rw [hfin] at hpc
    cases hpc
  | gracefulNet => rfl
  | _ => exact hfin

theorem ConnChange.serve_finished (h : ConnChange s s' bos k c a c' obs)
    (hfin : c.serve = .finished) : c'.serve = .finished := by
  cases h with
  | move hm => exact hm.serve_finished hfin
  | _ => exact hfin

theorem ConnChange.graceful_finished (h : ConnChange s s' bos k c a c' obs) (ha : a ≠ .drainConn)
    (hfin : c.graceful = .finished) : c'.graceful = .finished := by
  cases h with
  | move hm => exact hm.graceful_finished hfin
  | drain => exact absurd rfl ha
  | _ => exact hfin

theorem ConnChange.graceful_idle (h : ConnChange s s' bos k c a c' obs) (ha : a ≠ .drainConn)
    (hidle : c.graceful = .idle) : c'.graceful = .idle := by
  cases h with
  | move hm => exact hm.graceful_idle hidle
  | drain => exact absurd rfl ha
  | _ => exact hidle

end Move

/-! ## The connections of the two calls -/

/-- What the place of `GracefulShutdown` or `Close` says about `gracefulClose` and `serve` of
    connection `k`. -/
def Ctl.Sweeps (ctl : Ctl) (k : ConnId) (c : Connection) : Prop :=
  match ctl with
  | .idle | .close _ | .closeWait .. => c.graceful = .idle
  -- the copy of the active connections lacks only those whose `serve` has returned
  | .beginShutdown conns | .beginWait _ conns =>
    c.graceful = .idle ∧ (k ∈ conns ∨ c.serve = .finished)
  | .drain conns _ => k ∈ conns ∨ (c.graceful = .idle ∧ c.serve = .finished)
  | .finished => c.graceful = .finished ∨ (c.graceful = .idle ∧ c.serve = .finished)

/-- What it says about the call of `close` that `Close` makes. -/
def Ctl.Closes (ctl : Ctl) (k : ConnId) (c : Connection) : Prop :=
  (∃ todo, ctl = .closeWait k todo) ∨ c.closing .server = .idle ∨ c.closing .server = .finished

/-- `GracefulShutdown` has got past its check. -/
def Ctl.shutsDown : Ctl → Bool
  | .beginShutdown _ | .beginWait .. | .drain .. => true
  | _ => false

section Sweep

variable {k : ConnId} {c' : Connection} {bos : List Obs} {obs : List ConnObs} {ctl : Ctl}

theorem ConnChange.sweeps (h : ConnChange s s' bos k c a c' obs) (ha : a ≠ .drainConn)
    (hbefore : ctl.Sweeps k c) : ctl.Sweeps k c' := by
  have hidle := h.graceful_idle ha
  have hserve := h.serve_finished
  cases ctl with
  | idle | close | closeWait => exact hidle hbefore
  | beginShutdown | beginWait => exact ⟨hidle hbefore.1, hbefore.2.imp_right hserve⟩
  | drain => exact hbefore.imp_right fun h => ⟨hidle h.1, hserve h.2⟩
  | finished =>
    exact hbefore.imp (h.graceful_finished ha) fun h => ⟨hidle h.1, hserve h.2⟩

theorem ConnChange.closes (h : ConnChange s s' bos k c a c' obs) (hinv : c.ClosersInv)
    (ha : a ≠ .closeConn) (hbefore : ctl.Closes k c) : ctl.Closes k c' := by
  refine hbefore.imp_right fun hpc => ?_
  cases h with
  | move hm =>
    refine hpc.imp (fun hidle => ?_) (hm.closing_finished hinv)
    rcases hm.closing_idle hidle with hsame | ⟨heq, -⟩ | ⟨heq, -⟩
    · exact hsame
    · cases heq
    · cases heq
  | close => exact absurd rfl ha
  | _ => exact hpc

end Sweep

section Run

variable {config : Config} {G : Server → ServerAction → Prop} {log : List ServerObs} {k : ConnId}
  {c' : Connection}

/-- Connections are accepted by a server that is open. -/
theorem ServerEffect.accepts (h : ServerEffect s a s' os) (hnone : s.connections k = none)
    (hc' : s'.connections k = some c') :
    a = .accept k ∧ s.closed = false ∧ s'.conns = k :: s.conns ∧ s'.ctl = s.ctl := by
  -- a step that sets another connection, or none, leaves `k` without one
  have hset : ∀ {k₀ : ConnId} {c₀ c₁ : Connection}, s.connections k₀ = some c₁ →
      (s.setConn k₀ c₀).connections k ≠ some c' := by
    intro k₀ c₀ c₁ hc₁ heq
    have hk : k ≠ k₀ := by
      rintro rfl
      rw [hnone] at hc₁
      cases hc₁
    rw [Server.setConn_of_ne _ _ hk, hnone] at heq
    cases heq
  cases h with
  | @accept k₀ _ hopen =>
    by_cases hk : k = k₀
    · subst hk
      exact ⟨rfl, hopen, rfl, rfl⟩
    · rw [show _ = s.connections k from Server.setConn_of_ne s _ hk, hnone] at hc'
      cases hc'
  | peerSend hc | conn hc | connBus hc => exact absurd hc' (hset hc)
  | drainConn _ hc | closeConn _ hc => exact absurd hc' (hset hc)
  | _ =>
    rw [show s.connections k = _ from hc'] at hnone
    cases hnone

/-- `drainWG.Wait()` returns when every `gracefulClose` of the copy has. -/
theorem Server.drainReturn_finished {conns : List ConnId}
    (h : s.step .drainReturn = some (s', os)) (hctl : s.ctl = .drain conns []) (hk : k ∈ conns)
    (hc : s.connections k = some c) : c.graceful = .finished := by
  replace h : s.drainReturn = some (s', os) := h
  unfold Server.drainReturn at h
  rw [hctl] at h
  simp only [Option.ite_none_right_eq_some, List.all_eq_true] at h
  simpa [hc] using h.1 k hk

/-- The program counter of the two calls and the flags they set. -/
structure Server.CtlShape (s : Server) : Prop where
  unstarted : s.closed = false → s.ctl = .idle
  shutsDown : s.ctl.shutsDown = true → s.draining = true
  listed : ∀ conns todo, s.ctl = .drain conns todo → todo ⊆ conns

/-- The program counter of the two calls agrees with the flags, in every run. -/
theorem ctl_shape (h : (Server.lts config).Reach G log s) : s.CtlShape := by
  refine h.invariant (P := fun _ s => s.CtlShape) ?_ ?_
  · rintro _ rfl
    exact ⟨fun _ => rfl, by simp [newServer, Ctl.shutsDown], by simp [newServer]⟩
  intro log s a s' os ih _ hstep
  have hstarted : s.ctl ≠ .idle → s.closed = false → s'.ctl = .idle :=
    fun hne hopen => absurd (ih.unstarted hopen) hne
  cases server_step_effect hstep with
  | bus | accept | peerSend | conn | connBus | removeConnection =>
    exact ⟨ih.unstarted, ih.shutsDown, ih.listed⟩
  | gracefulShutdown => exact ⟨by simp, fun _ => rfl, by simp⟩
  | close => exact ⟨by simp, by simp [Ctl.shutsDown], by simp⟩
  | beginShutdown hctl =>
    exact ⟨hstarted (by simp [hctl]), fun _ => ih.shutsDown (by rw [hctl]; rfl), by simp⟩
  | beginReturn hctl =>
    refine ⟨hstarted (by simp [hctl]), fun _ => ih.shutsDown (by rw [hctl]; rfl), ?_⟩
    intro conns todo heq
    obtain ⟨rfl, rfl⟩ := Ctl.drain.inj heq
    exact List.Subset.refl _
  | drainConn hctl =>
    refine ⟨hstarted (by simp [hctl]), fun _ => ih.shutsDown (by rw [hctl]; rfl), ?_⟩
    intro conns todo heq
    obtain ⟨rfl, rfl⟩ := Ctl.drain.inj heq
    exact (List.cons_subset.mp (ih.listed _ _ hctl)).2
  | drainReturn hctl | closeConn hctl | closeConnReturn hctl | closeReturn hctl =>
    exact ⟨hstarted (by simp [hctl]), by simp [Ctl.shutsDown], by simp⟩

/-- A connection is active until its `serve` has returned. -/
theorem active_inv (h : (Server.lts config).Reach G log s) (hc : s.connections k = some c) :
    k ∈ s.conns ∨ c.serve = .finished := by
  refine h.invariant (P := fun _ s => ∀ c, s.connections k = some c →
    k ∈ s.conns ∨ c.serve = .finished) ?_ ?_ c hc
  · rintro _ rfl c hc
    cases hc
  intro log s a s' os ih _ hstep c' hc'
  have heff := server_step_effect hstep
  rcases heff.conn_cases hc' with ⟨hnone, -, -⟩ | ⟨c, obs, hc, -, hch⟩
  · obtain ⟨-, -, hconns, -⟩ := heff.accepts hnone hc'
    rw [hconns]
    exact .inl List.mem_cons_self
  · rcases ih c hc with hk | hfin
    · cases heff with
      | @removeConnection k₀ c₀ hc₀ hfin =>
        by_cases hkk : k = k₀
        · subst hkk
          rw [hc, Option.some.injEq] at hc₀
          exact .inr (hch.serve_finished (hc₀ ▸ hfin))
        · exact .inl ((List.mem_erase_of_ne hkk).mpr hk)
      | accept => exact .inl (List.mem_cons_of_mem _ hk)
      | _ => exact .inl hk
    · exact .inr (hch.serve_finished hfin)

/-- What the place of the two calls says about every connection. -/
theorem sweep_inv (h : (Server.lts config).Reach G log s) (hc : s.connections k = some c) :
    s.ctl.Sweeps k c := by
  refine h.induct_reach
    (P := fun _ s => ∀ c, s.connections k = some c → s.ctl.Sweeps k c) ?_ ?_ c hc
  · rintro _ rfl c hc
    cases hc
  intro log s a s' os hr ih _ hstep c' hc'
  have heff := server_step_effect hstep
  have hshape := ctl_shape hr
  rcases heff.conn_cases hc' with ⟨hnone, rfl, -⟩ | ⟨c, obs, hc, -, hch⟩
  · obtain ⟨-, hopen, -, hctl⟩ := heff.accepts hnone hc'
    rw [hctl, hshape.unstarted hopen]
    exact rfl
  have hbefore := ih c hc
  have hactive := active_inv hr hc
  cases heff with
  | bus | accept | peerSend | conn | connBus | removeConnection =>
    exact hch.sweeps (by simp) hbefore
  | gracefulShutdown hopen hperm =>
    rw [hshape.unstarted hopen] at hbefore
    refine hch.sweeps (by simp) ⟨hbefore, hactive.imp_left hperm.mem_iff.mpr⟩
  | close hopen =>
    rw [hshape.unstarted hopen] at hbefore
    exact hch.sweeps (by simp) hbefore
  | beginShutdown hctl =>
    rw [hctl] at hbefore
    exact hch.sweeps (by simp) hbefore
  | beginReturn hctl =>
    rw [hctl] at hbefore
    exact hch.sweeps (by simp)
      (hbefore.2.imp_right fun hfin => ⟨hbefore.1, hfin⟩)
  | @drainConn conns todo k₀ c₀ hctl hc₀ =>
    rw [hctl] at hbefore
    -- the connection whose `gracefulClose` starts is one of the copy
    by_cases hk : k = k₀
    · subst hk
      exact .inl (List.cons_subset.mp (hshape.listed _ _ hctl)).1
    · rw [show _ = s.connections k from Server.setConn_of_ne s _ hk, hc, Option.some.injEq] at hc'
      exact hc' ▸ hbefore
  | drainReturn hctl =>
    rw [hctl] at hbefore
    exact hch.sweeps (by simp)
      (hbefore.imp_left fun hk => Server.drainReturn_finished hstep hctl hk hc)
  | closeConn hctl | closeConnReturn hctl =>
    rw [hctl] at hbefore
    exact hch.sweeps (by simp) hbefore
  | closeReturn hctl hnil =>
    rw [hctl] at hbefore
    rw [hnil] at hactive
    refine hch.sweeps (by simp) (.inr ⟨hbefore, ?_⟩)
    simpa using hactive

end Run

/-! ## Sockets -/

/-- A call of `close` that has set `c.closed` and is about to close the socket. -/
def ClosePc.busy : ClosePc → Bool
  | .subs _ | .wait .. => true
  | _ => false

/-- Whoever has set `c.closed` closes the socket. -/
def Connection.NetInv (c : Connection) : Prop :=
  c.closed = true → c.netClosed = true ∨ c.graceful = .closeNet ∨
    ∃ closer, (c.closing closer).busy = true

section Net

variable {k : ConnId} {c' : Connection} {bos : List Obs} {obs : List ConnObs}

/-- A call of `close` goes on; if it was about to close the socket, it still is. -/
theorem Connection.NetInv.setClosing {closer : Closer} {pc : ClosePc} (h : c.NetInv)
    (hpc : (c.closing closer).busy = true → pc.busy = true) : (c.setClosing closer pc).NetInv := by
  intro hcl
  refine (h hcl).imp_right fun h => h.imp_right fun ⟨closer', hbusy⟩ => ⟨closer', ?_⟩
  by_cases heq : closer' = closer
  · subst heq
    rw [Connection.setClosing_self]
    exact hpc hbusy
  · rw [Connection.setClosing_of_ne heq]
    exact hbusy

end Net

section Return

variable {config : Config} {G : Server → ServerAction → Prop} {log : List ServerObs} {k : ConnId}

/-- Behind `GracefulShutdown`: a connection that was active has been through `gracefulClose`,
    and every other one has been left by `serve`. -/
theorem graceful_returned (h : (Server.lts config).Reach G log s) (hctl : s.ctl = .finished)
    (hc : s.connections k = some c) :
    c.graceful = .finished ∨ (c.graceful = .idle ∧ c.serve = .finished) := by
  have hswept := sweep_inv h hc
  rwa [hctl] at hswept

end Return

/-! ## A server behind Close -/

end EventBus
