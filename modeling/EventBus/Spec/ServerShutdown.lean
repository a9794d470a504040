import EventBus.Spec.ClientReader
import EventBus.Spec.ServerDrain
import EventBus.Spec.ServerFrames

/-!
# What GracefulShutdown sends

`GracefulShutdown` starts `gracefulClose` once for every connection that it has copied, and
all of them write the redirect of this one call.

## Key results

- `pending_inv`: `gracefulClose` is started once for a connection
- `shutdown_frames`: every SHUTDOWN frame carries the redirect
- `written_readable`: apart from ERROR frames, a client can read every frame of its server
-/

namespace EventBus

variable {k : ConnId} {config : Config} {G : Server → ServerAction → Prop} {log : List ServerObs}
  {s : Server} {frame : Frame} {redirect payload : Bytes} {writer : Writer}

/-- The connections for which `gracefulClose` is still to be started. -/
def Ctl.pending : Ctl → List ConnId
  | .beginShutdown conns | .beginWait _ conns => conns
  | .drain _ todo => todo
  | _ => []

/-- `GracefulShutdown` starts `gracefulClose` once for a connection. -/
structure Server.PendingInv (s : Server) : Prop where
  conns : s.conns.Nodup
  accepted : ∀ k ∈ s.conns, s.connections k ≠ none
  pending : s.ctl.pending.Nodup
  idle : ∀ k ∈ s.ctl.pending, ∀ c, s.connections k = some c → c.graceful = .idle
  unstarted : s.closed = false → s.ctl.pending = []
  fresh : s.closed = false → ∀ k c, s.connections k = some c → c.graceful = .idle

section Order

variable {s' : Server} {a : ServerAction} {os : List ServerObs}

/-- A connection stays in the server. -/
theorem ServerEffect.accepted (h : ServerEffect s a s' os) (hk : s.connections k ≠ none) :
    s'.connections k ≠ none := by
  rcases h.conn_change k with ⟨hnone, -⟩ | ⟨c, c', -, hc', -⟩
  · exact absurd hnone hk
  · rw [hc']
    exact Option.some_ne_none c'

/-- Only `GracefulShutdown` starts `gracefulClose`, for the next connection of its list. -/
theorem ServerEffect.graceful_idle (h : ServerEffect s a s' os) {c' : Connection}
    (hc' : s'.connections k = some c')
    (hidle : ∀ c, s.connections k = some c → c.graceful = .idle) :
    c'.graceful = .idle ∨ ∃ conns todo, s.ctl = .drain conns (k :: todo) ∧ a = .drainConn := by
  rcases h.conn_cases hc' with ⟨-, rfl, -⟩ | ⟨c, _, hc, -, hch⟩
  · exact .inl rfl
  have hbefore := hidle c hc
  cases hch with
  | move hm => exact .inl (hm.graceful_idle hbefore)
  | drain hctl => exact .inr ⟨_, _, hctl, rfl⟩
  | _ => exact .inl hbefore

/-- A step that leaves the list of `GracefulShutdown` alone. -/
theorem Server.PendingInv.same (h : s.PendingInv) (heff : ServerEffect s a s' os)
    (hdrain : a ≠ .drainConn) (hconns : s'.conns.Nodup)
    (haccepted : ∀ k ∈ s'.conns, s'.connections k ≠ none) (hctl : s'.ctl.pending = s.ctl.pending)
    (hclosed : s'.closed = false → s.closed = false) : s'.PendingInv where
  conns := hconns
  accepted := haccepted
  pending := hctl ▸ h.pending
  idle k hk c' hc' := by
    rw [hctl] at hk
    rcases heff.graceful_idle hc' (h.idle k hk) with hidle | ⟨_, _, -, heq⟩
    · exact hidle
    · exact absurd heq hdrain
  unstarted hopen := hctl ▸ h.unstarted (hclosed hopen)
  fresh hopen k c' hc' := by
    rcases heff.graceful_idle hc' (h.fresh (hclosed hopen) k) with hidle | ⟨_, _, -, heq⟩
    · exact hidle
    · exact absurd heq hdrain

end Order

theorem pending_inv (h : (Server.lts config).Reach G log s) : s.PendingInv := by
  refine h.invariant (P := fun _ s => s.PendingInv) ?_ ?_
  · rintro _ rfl
    exact ⟨.nil, nofun, .nil, nofun, fun _ => rfl, fun _ _ _ hc => nomatch hc⟩
  intro log s a s' os ih _ hstep
  have heff := server_step_effect hstep
  have haccepted : ∀ k ∈ s.conns, s'.connections k ≠ none :=
    fun k hk => heff.accepted (ih.accepted k hk)
  have hstay := ih.same heff
  cases heff with
  | bus | peerSend | conn | connBus => exact hstay nofun ih.conns haccepted rfl id
  | beginShutdown hctl | beginReturn hctl =>
    exact hstay nofun ih.conns haccepted (by rw [hctl]; rfl) id
  | drainReturn hctl | closeConn hctl | closeConnReturn hctl | closeReturn hctl =>
    exact hstay nofun ih.conns haccepted (by rw [hctl]; rfl) id
  | @accept k hnone =>
    refine hstay nofun (ih.conns.cons fun hk => ih.accepted k hk hnone) ?_ rfl id
    intro k' hk'
    rcases List.mem_cons.mp hk' with rfl | hold
    · show (s.setConn k' newConnection).connections k' ≠ none
      rw [Server.setConn_self]
      exact Option.some_ne_none _
    · exact haccepted k' hold
  | removeConnection =>
    exact hstay nofun (ih.conns.erase _) (fun k hk => haccepted k (List.mem_of_mem_erase hk)) rfl id
  | gracefulShutdown hopen hperm =>
    exact ⟨ih.conns, haccepted, hperm.nodup_iff.mpr ih.conns, fun k _ => ih.fresh hopen k, nofun,
      nofun⟩
  | close => exact ⟨ih.conns, haccepted, .nil, nofun, nofun, nofun⟩
  | @drainConn conns todo k c hctl hc =>
    have hpending := ih.pending
    have hidle := ih.idle
    rw [hctl] at hpending hidle
    -- no connection is met twice
    obtain ⟨hk, htodo⟩ := List.nodup_cons.mp hpending
    refine ⟨ih.conns, haccepted, htodo, fun k' hk' c' hc' => ?_, fun hopen => ?_, fun hopen => ?_⟩
    · have hne : k' ≠ k := fun heq => hk (heq ▸ hk')
      rw [show _ = s.connections k' from Server.setConn_of_ne s _ hne] at hc'
      exact hidle k' (List.mem_cons_of_mem k hk') c' hc'
    · have hnone := ih.unstarted hopen
      rw [hctl] at hnone
      cases hnone
    · have hnone := ih.unstarted hopen
      rw [hctl] at hnone
      cases hnone

/-- `GracefulShutdown` is called once, and every SHUTDOWN frame carries its redirect. -/
theorem shutdown_frames (h : (Server.lts config).Reach G log s)
    (ho : .wrote .graceful frame ∈ connLog k log) : Redirects s.redirect frame := by
  have hboth : s.closed = true ∧ Redirects s.redirect frame := by
    refine h.induct_reach (P := fun log s => .wrote .graceful frame ∈ connLog k log →
      s.closed = true ∧ Redirects s.redirect frame) (fun _ _ => nofun) ?_ ho
    intro log s a s' os hr ih _ hstep ho
    have heff := server_step_effect hstep
    -- once the server is closed, it stays so and its redirect stays
    have hkeep : s.closed = true → s'.closed = true ∧ s'.redirect = s.redirect := by
      intro hclosed
      cases heff with
      | gracefulShutdown hopen | close hopen =>
        rw [hclosed] at hopen
        cases hopen
      | _ => exact ⟨hclosed, rfl⟩
    rw [connLog_append] at ho
    rcases List.mem_append.mp ho with hold | hnew
    · obtain ⟨hclosed, hf⟩ := ih hold
      exact ⟨(hkeep hclosed).1, (hkeep hclosed).2 ▸ hf⟩
    rcases heff.conn_change k with ⟨-, hlog, -⟩ | ⟨c, c', hc, -, hch⟩
    · rw [hlog] at hnew
      cases hnew
    generalize connLog k os = obs at hch hnew
    cases hch with
    | move hm =>
      rcases hm.wrote hnew with ⟨hw, -⟩ | ⟨-, payload, henc, rfl, hpc⟩ | ⟨_, _, hw⟩
      · cases hw
      · have hclosed : s.closed = true := by
          by_contra hopen
          have hidle := (pending_inv hr).fresh (by simpa using hopen) k c hc
          rw [hpc] at hidle
          cases hidle
        rw [(hkeep hclosed).2]
        exact ⟨(hkeep hclosed).1, rfl, (decodeShutdown_ok_iff _ _).mpr henc⟩
      · cases hw
    | _ => cases hnew
  exact hboth.2

/-- A frame redirects to one address. -/
theorem Redirects.unique {redirect' : Bytes} (h : Redirects redirect frame)
    (h' : Redirects redirect' frame) : redirect = redirect' := by
  have heq := h.2.symm.trans h'.2
  exact (ShutdownMessage.mk.inj (Except.ok.inj heq))

/-- Nobody but `gracefulClose` writes a SHUTDOWN frame. -/
theorem shutdown_writer (h : (Server.lts config).Reach G log s)
    (ho : .wrote writer frame ∈ connLog k log) (htype : frame.type = typeShutdown) :
    writer = .graceful := by
  cases hc : s.connections k with
  | none =>
    rw [connLog_eq_nil h hc] at ho
    cases ho
  | some c =>
    cases writer with
    | serve =>
      cases (written_inv h hc).serve frame ho with
      | pong => exact absurd htype (by decide)
      | error => exact absurd htype (by decide : typeError ≠ typeShutdown)
      | ack => exact absurd htype (by decide : typeAck ≠ typeShutdown)
    | delivery sub ch =>
      rw [(delivery_frame h hc ho).2.1] at htype
      exact absurd htype (by decide)
    | graceful => rfl

/-! ## The frames, seen by the client -/

theorem readable_event {event : Event} (henc : encodeEvent event = .ok payload) :
    Readable ⟨typeEvent, payload⟩ where
  error := (by decide : typeEvent ≠ typeError)
  event _ := ⟨event, (decodeEvent_ok_iff _ _).mpr henc⟩
  ack h := absurd h (by decide : typeEvent ≠ typeAck)
  shutdown h := absurd h (by decide : typeEvent ≠ typeShutdown)

theorem readable_ack {ack : AckMessage} (henc : encodeAck ack = .ok payload) :
    Readable ⟨typeAck, payload⟩ where
  error := (by decide : typeAck ≠ typeError)
  event h := absurd h (by decide : typeAck ≠ typeEvent)
  ack _ := ⟨ack, (decodeAck_ok_iff _ _).mpr henc⟩
  shutdown h := absurd h (by decide : typeAck ≠ typeShutdown)

theorem readable_pong : Readable ⟨typePong, []⟩ where
  error := by decide
  event h := absurd h (by decide : typePong ≠ typeEvent)
  ack h := absurd h (by decide : typePong ≠ typeAck)
  shutdown h := absurd h (by decide : typePong ≠ typeShutdown)

theorem Redirects.readable (h : Redirects redirect frame) :
    Readable frame := by
  obtain ⟨htype, hdec⟩ := h
  constructor <;> rw [htype]
  · decide
  · exact fun h => absurd h (by decide)
  · exact fun h => absurd h (by decide)
  · exact fun _ => ⟨_, hdec⟩

/-- A client can read every frame that its server writes, but for ERROR frames. -/
theorem written_readable (h : (Server.lts config).Reach G log s)
    (ho : .wrote writer frame ∈ connLog k log) (herror : frame.type ≠ typeError) :
    Readable frame := by
  cases hc : s.connections k with
  | none =>
    rw [connLog_eq_nil h hc] at ho
    cases ho
  | some c =>
    cases writer with
    | serve =>
      cases (written_inv h hc).serve frame ho with
      | pong => exact readable_pong
      | error => exact absurd rfl herror
      | ack henc => exact readable_ack henc
    | delivery sub ch =>
      obtain ⟨-, htype, x, -, -, henc⟩ := delivery_frame h hc ho
      obtain ⟨type, payload⟩ := frame
      obtain rfl : type = typeEvent := htype
      exact readable_event henc
    | graceful => exact (shutdown_frames h ho).readable

end EventBus
