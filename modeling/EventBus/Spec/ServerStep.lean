import EventBus.Spec.ConnectionStep

/-!
# What a step of the server can do

`ServerEffect s a s' os` lists the steps of the server: those of its connections, of the
bus, of the peers and of `GracefulShutdown` and `Close`. Two views of such a step carry
the proofs about runs: what it does to the bus (`ServerEffect.bus_step`) and what it does
to one connection (`ServerEffect.conn_change`).

## Key results

- `server_step_effect`: every step of the server is one of the effects
- `Server.reach_bus`: a run of the server is a run of its bus
- `ServerEffect.conn_change`: a step, seen from one connection
-/

namespace EventBus

variable {a : ServerAction} {k k' : ConnId} {frame : Frame} {order : List ConnId} {s s' : Server}
  {os log : List ServerObs} {config : Config} {G : Server → ServerAction → Prop} {c : Connection}

/-- Every change a step of the server can make, with the observations it reports. -/
inductive ServerEffect (s : Server) : ServerAction → Server → List ServerObs → Prop
  | bus {a : Action} {bus : Bus} {os : List Obs} : s.admits a = true →
      s.bus.step a = some (bus, os) →
      ServerEffect s (.bus a) { s with bus := bus, others := s.othersAfter a } (os.map .bus)
  | accept {k : ConnId} : s.connections k = none → s.closed = false →
      ServerEffect s (.accept k) { s.setConn k newConnection with conns := k :: s.conns } []
  | peerSend {k : ConnId} {frame : Frame} {c : Connection} {p : Bytes} :
      s.connections k = some c → writeFrame frame = .ok p →
      ServerEffect s (.peerSend k frame) (s.setConn k { c with input := c.input ++ [frame] }) []
  | conn {k : ConnId} {a : ConnAction} {c c' : Connection} {obs : List ConnObs} :
      s.connections k = some c → ConnMove s c a ⟨c', none, obs⟩ →
      ServerEffect s (.conn k a) (s.setConn k c') (obs.map (.conn k))
  | connBus {k : ConnId} {a : ConnAction} {c c' : Connection} {b : Action} {bus : Bus}
      {os : List Obs} {obs : List ConnObs} :
      s.connections k = some c → ConnMove s c a ⟨c', some b, obs⟩ →
      s.bus.step b = some (bus, os) →
      ServerEffect s (.conn k a) { s.setConn k c' with bus := bus }
        (os.map .bus ++ obs.map (.conn k))
  | removeConnection {k : ConnId} {c : Connection} : s.connections k = some c →
      c.serve = .finished →
      ServerEffect s (.removeConnection k) { s with conns := s.conns.erase k } []
  | gracefulShutdown {ctx : Ctx} {redirect : Bytes} {order : List ConnId} :
      s.closed = false → order.Perm s.conns →
      ServerEffect s (.gracefulShutdown ctx redirect order)
        { s with
          closed := true
          draining := true
          ctl := .beginShutdown order
          ctx := ctx
          redirect := redirect } [.shuttingDown order]
  | beginShutdown {call : CallId} {conns : List ConnId} {bus : Bus} {os : List Obs} :
      s.ctl = .beginShutdown conns →
      s.bus.step (.invoke call .beginShutdown) = some (bus, os) →
      ServerEffect s (.beginShutdown call) { s with bus := bus, ctl := .beginWait call conns }
        (os.map .bus)
  | beginReturn {call : CallId} {conns : List ConnId} {r : Ret} : s.ctl = .beginWait call conns →
      s.bus.calls call = some (.returned r) →
      ServerEffect s .beginReturn { s with ctl := .drain conns conns } []
  | drainConn {conns todo : List ConnId} {k : ConnId} {c : Connection} :
      s.ctl = .drain conns (k :: todo) → s.connections k = some c → c.muHeld = false →
      ServerEffect s .drainConn
        { s.setConn k { c with draining := c.draining || !c.closed, graceful := .start } with
          ctl := .drain conns todo } []
  | drainReturn {conns : List ConnId} : s.ctl = .drain conns [] →
      ServerEffect s .drainReturn { s with ctl := .finished } []
  | close {order : List ConnId} : s.closed = false → order.Perm s.conns →
      ServerEffect s (.close order) { s with closed := true, ctl := .close order } []
  | closeConn {k : ConnId} {todo : List ConnId} {c : Connection} : s.ctl = .close (k :: todo) →
      s.connections k = some c →
      ServerEffect s .closeConn
        { s.setConn k (c.setClosing .server .start) with ctl := .closeWait k todo } []
  | closeConnReturn {k : ConnId} {todo : List ConnId} {c : Connection} :
      s.ctl = .closeWait k todo → s.connections k = some c → c.closing .server = .finished →
      ServerEffect s .closeConnReturn { s with ctl := .close todo } []
  | closeReturn : s.ctl = .close [] → s.conns = [] →
      ServerEffect s .closeReturn { s with ctl := .finished } []

/-- The bus moves by itself, or a call from outside the server does. -/
private theorem busStep_effect {a : Action} (h : s.busStep a = some (s', os)) :
    ServerEffect s (.bus a) s' os := by
  unfold Server.busStep at h
  split at h
  · rename_i hadm
    split at h
    · rename_i hstep
      cases h
      exact .bus hadm hstep
    · cases h
  · cases h

/-- `Serve` takes on no connection once `s.closed` is set. -/
private theorem accept_effect (h : s.accept k = some (s', os)) :
    ServerEffect s (.accept k) s' os := by
  unfold Server.accept at h
  split at h
  · rename_i hnew
    split at h
    · cases h
    · rename_i hopen
      cases h
      exact .accept hnew (by simpa using hopen)
  · cases h

/-- A peer sends only frames that `WriteFrame` writes. -/
private theorem peerSend_effect (h : s.peerSend k frame = some (s', os)) :
    ServerEffect s (.peerSend k frame) s' os := by
  unfold Server.peerSend at h
  split at h
  · rename_i hc
    split at h
    · rename_i hw
      cases h
      exact .peerSend hc hw
    · cases h
  · cases h

/-- A step of a connection, with the step of the bus it makes. -/
private theorem stepConn_effect {a : ConnAction} (h : s.stepConn k a = some (s', os)) :
    ServerEffect s (.conn k a) s' os := by
  unfold Server.stepConn at h
  split at h
  · rename_i hc
    split at h
    · rename_i hmove
      cases h
      exact .conn hc (connStep_move hmove)
    · rename_i hmove
      split at h
      · rename_i hstep
        cases h
        exact .connBus hc (connStep_move hmove) hstep
      · cases h
    · cases h
  · cases h

/-- The deferred `removeConnection` runs when `serve` has ended. -/
private theorem removeConnection_effect (h : s.removeConnection k = some (s', os)) :
    ServerEffect s (.removeConnection k) s' os := by
  unfold Server.removeConnection at h
  split at h
  · rename_i hc
    split at h
    · rename_i hfin
      cases h
      exact .removeConnection hc hfin.1
    · cases h
  · cases h

/-- The first section of `GracefulShutdown`, under `s.mu`. -/
private theorem gracefulShutdown_effect {ctx : Ctx} {redirect : Bytes}
    (h : s.gracefulShutdown ctx redirect order = some (s', os)) :
    ServerEffect s (.gracefulShutdown ctx redirect order) s' os := by
  unfold Server.gracefulShutdown at h
  split at h
  · cases h
  rename_i hopen
  split at h
  · rename_i hperm
    cases h
    exact .gracefulShutdown (by simpa using hopen) hperm
  · cases h

/-- `GracefulShutdown` calls the broker's `BeginShutdown`. -/
private theorem beginShutdown_server_effect {call : CallId}
    (h : s.beginShutdown call = some (s', os)) : ServerEffect s (.beginShutdown call) s' os := by
  unfold Server.beginShutdown at h
  split at h
  · rename_i hctl
    split at h
    · rename_i hstep
      cases h
      exact .beginShutdown hctl hstep
    · cases h
  · cases h

/-- `BeginShutdown` has returned, and the connections are next. -/
private theorem beginReturn_effect (h : s.beginReturn = some (s', os)) :
    ServerEffect s .beginReturn s' os := by
  unfold Server.beginReturn at h
  split at h
  · rename_i hctl
    split at h
    · rename_i hr
      cases h
      exact .beginReturn hctl (Bus.result_eq_some.mp hr)
    · cases h
  · cases h

/-- `GracefulShutdown` starts `gracefulClose` of the next connection. -/
private theorem drainConn_effect (h : s.drainConn = some (s', os)) :
    ServerEffect s .drainConn s' os := by
  unfold Server.drainConn at h
  split at h
  · rename_i hctl
    split at h
    · rename_i hc
      split at h
      · cases h
      · rename_i hmu
        cases h
        exact .drainConn hctl hc (by simpa using hmu)
    · cases h
  · cases h

/-- `GracefulShutdown` has started them all. -/
private theorem drainReturn_effect (h : s.drainReturn = some (s', os)) :
    ServerEffect s .drainReturn s' os := by
  unfold Server.drainReturn at h
  split at h
  · rename_i hctl
    split at h
    · cases h
      exact .drainReturn hctl
    · cases h
  · cases h

/-- The first section of `Close`, under `s.mu`. -/
private theorem close_effect (h : s.close order = some (s', os)) :
    ServerEffect s (.close order) s' os := by
  unfold Server.close at h
  split at h
  · cases h
  rename_i hopen
  split at h
  · rename_i hperm
    cases h
    exact .close (by simpa using hopen) hperm
  · cases h

/-- `Close` closes the next connection. -/
private theorem closeConn_effect (h : s.closeConn = some (s', os)) :
    ServerEffect s .closeConn s' os := by
  unfold Server.closeConn at h
  split at h
  · rename_i hctl
    split at h
    · rename_i hc
      cases h
      exact .closeConn hctl hc
    · cases h
  · cases h

/-- The `Close` of a connection has returned. -/
private theorem closeConnReturn_effect (h : s.closeConnReturn = some (s', os)) :
    ServerEffect s .closeConnReturn s' os := by
  unfold Server.closeConnReturn at h
  split at h
  · rename_i hctl
    split at h
    · rename_i hc
      split at h
      · rename_i hfin
        cases h
        exact .closeConnReturn hctl hc hfin
      · cases h
    · cases h
  · cases h

/-- `s.wg.Wait()` returns when every connection has been removed. -/
private theorem closeReturn_effect (h : s.closeReturn = some (s', os)) :
    ServerEffect s .closeReturn s' os := by
  unfold Server.closeReturn at h
  split at h
  · rename_i hctl
    split at h
    · rename_i hnil
      cases h
      exact .closeReturn hctl hnil
    · cases h
  · cases h

/-- Every step of the server is one of the effects. -/
theorem server_step_effect (h : s.step a = some (s', os)) : ServerEffect s a s' os := by
  cases a with
  | bus => exact busStep_effect h
  | accept => exact accept_effect h
  | peerSend => exact peerSend_effect h
  | conn => exact stepConn_effect h
  | removeConnection => exact removeConnection_effect h
  | gracefulShutdown => exact gracefulShutdown_effect h
  | beginShutdown => exact beginShutdown_server_effect h
  | beginReturn => exact beginReturn_effect h
  | drainConn => exact drainConn_effect h
  | drainReturn => exact drainReturn_effect h
  | close => exact close_effect h
  | closeConn => exact closeConn_effect h
  | closeConnReturn => exact closeConnReturn_effect h
  | closeReturn => exact closeReturn_effect h

/-! ## The bus of a server -/

/-- An observation of the bus. -/
def ServerObs.bus? : ServerObs → Option Obs
  | .bus o => some o
  | _ => none

/-- An observation of connection `k`. -/
def ServerObs.conn? (k : ConnId) : ServerObs → Option ConnObs
  | .conn k' o => if k' = k then some o else none
  | _ => none

/-- A frame read by `serve`. -/
def ConnObs.read? : ConnObs → Option Frame
  | .read frame => some frame
  | _ => none

/-- A frame written. -/
def ConnObs.wrote? : ConnObs → Option Frame
  | .wrote _ frame => some frame
  | _ => none

/-- What the bus reports in a run of the server. -/
def busLog (log : List ServerObs) : List Obs := log.filterMap ServerObs.bus?

/-- What connection `k` reports in a run of the server. -/
def connLog (k : ConnId) (log : List ServerObs) : List ConnObs :=
  log.filterMap (ServerObs.conn? k)

@[simp] theorem busLog_nil : busLog [] = [] := rfl

@[simp] theorem busLog_append (log log' : List ServerObs) :
    busLog (log ++ log') = busLog log ++ busLog log' := List.filterMap_append

@[simp] theorem busLog_map_bus (os : List Obs) : busLog (os.map .bus) = os := by
  simp [busLog, List.filterMap_map, Function.comp_def, ServerObs.bus?]

@[simp] theorem busLog_map_conn (k : ConnId) (obs : List ConnObs) :
    busLog (obs.map (.conn k)) = [] := by
  simp [busLog, List.filterMap_map, Function.comp_def, ServerObs.bus?]

@[simp] theorem connLog_nil (k : ConnId) : connLog k [] = [] := rfl

@[simp] theorem connLog_append (k : ConnId) (log log' : List ServerObs) :
    connLog k (log ++ log') = connLog k log ++ connLog k log' := List.filterMap_append

@[simp] theorem connLog_map_bus (k : ConnId) (os : List Obs) : connLog k (os.map .bus) = [] := by
  simp [connLog, List.filterMap_map, Function.comp_def, ServerObs.conn?]

@[simp] theorem connLog_map_conn_self (k : ConnId) (obs : List ConnObs) :
    connLog k (obs.map (.conn k)) = obs := by
  simp [connLog, List.filterMap_map, Function.comp_def, ServerObs.conn?]

/-- What a connection has reported, in the log of the server. -/
theorem mem_connLog {o : ConnObs} :
    o ∈ connLog k log ↔ .conn k o ∈ log := by
  constructor
  · intro ho
    obtain ⟨o', ho', heq⟩ := List.mem_filterMap.mp ho
    cases o' with
    | conn k' o' =>
      simp only [ServerObs.conn?, Option.ite_none_right_eq_some, Option.some.injEq] at heq
      obtain ⟨rfl, rfl⟩ := heq
      exact ho'
    | _ => cases heq
  · intro ho
    exact List.mem_filterMap.mpr ⟨_, ho, by simp [ServerObs.conn?]⟩

theorem connLog_map_conn_of_ne (h : k' ≠ k) (obs : List ConnObs) :
    connLog k (obs.map (.conn k')) = [] := by
  simp [connLog, List.filterMap_map, Function.comp_def, ServerObs.conn?, h]

/-- The bus takes the step `b`, or stays as it is. -/
def BusStep (w : Bus) (b : Option Action) (w' : Bus) (os : List Obs) : Prop :=
  match b with
  | none => w' = w ∧ os = []
  | some b => w.step b = some (w', os)

/-- A step of the server makes at most one step of its bus. -/
theorem ServerEffect.bus_step (h : ServerEffect s a s' os) :
    ∃ b, BusStep s.bus b s'.bus (busLog os) := by
  cases h with
  | bus _ hstep => exact ⟨some _, by simpa [BusStep] using hstep⟩
  | connBus _ _ hstep => exact ⟨some _, by simpa [BusStep] using hstep⟩
  | beginShutdown _ hstep => exact ⟨some _, by simpa [BusStep] using hstep⟩
  | conn => exact ⟨none, rfl, by simp⟩
  | _ => exact ⟨none, rfl, rfl⟩

/-- A run of the server is a run of its bus. -/
theorem Server.steps_bus (h : (Server.lts config).Steps G s log s') :
    (Bus.lts config).Steps Lts.Always s.bus (busLog log) s'.bus := by
  refine h.project Server.bus ServerObs.bus? fun s a s' os _ hs => ?_
  obtain ⟨b, hb⟩ := (server_step_effect hs).bus_step
  cases b with
  | none =>
    obtain ⟨heq, hnil⟩ := hb
    rw [heq, show os.filterMap ServerObs.bus? = [] from hnil]
    exact .refl _
  | some b => exact .single trivial hb

/-- A run of the server is a run of its bus. -/
theorem Server.reach_bus (h : (Server.lts config).Reach G log s) :
    (Bus.lts config).Reach Lts.Always (busLog log) s.bus := by
  obtain ⟨s₀, rfl, hsteps⟩ := h
  exact ⟨_, rfl, Server.steps_bus hsteps⟩

/-! ## One connection of a server -/

/-- What a step of the server does to its connection `k`, which is `c` before; `bos` is what
    the bus reports. -/
inductive ConnChange (s s' : Server) (bos : List Obs) (k : ConnId) (c : Connection) :
    ServerAction → Connection → List ConnObs → Prop
  | stay {a : ServerAction} : (∀ act, a ≠ .conn k act) → ConnChange s s' bos k c a c []
  | move {a : ConnAction} {out : Out} : ConnMove s c a out →
      BusStep s.bus out.bus s'.bus bos → ConnChange s s' bos k c (.conn k a) out.conn out.obs
  | peerSend {frame : Frame} {p : Bytes} : writeFrame frame = .ok p →
      ConnChange s s' bos k c (.peerSend k frame) { c with input := c.input ++ [frame] } []
  | drain {conns todo : List ConnId} : s.ctl = .drain conns (k :: todo) → c.muHeld = false →
      ConnChange s s' bos k c .drainConn
        { c with draining := c.draining || !c.closed, graceful := .start } []
  | close {todo : List ConnId} : s.ctl = .close (k :: todo) →
      ConnChange s s' bos k c .closeConn (c.setClosing .server .start) []

@[simp] theorem Server.setConn_self (s : Server) (k : ConnId) (c : Connection) :
    (s.setConn k c).connections k = some c := by
  simp [Server.setConn]

theorem Server.setConn_of_ne (s : Server) (c : Connection) (h : k' ≠ k) :
    (s.setConn k c).connections k' = s.connections k' := by
  simp [Server.setConn, h]

/-- A step of the server, seen from connection `k`: it is not there, it is accepted, or it
    changes in one of the ways above. -/
theorem ServerEffect.conn_change (h : ServerEffect s a s' os) (k : ConnId) :
    (s.connections k = none ∧ connLog k os = [] ∧
      (s'.connections k = none ∨ s'.connections k = some newConnection)) ∨
    ∃ c c', s.connections k = some c ∧ s'.connections k = some c' ∧
      ConnChange s s' (busLog os) k c a c' (connLog k os) := by
  -- a step of another connection, or of none, leaves connection `k` as it is
  have hother : (∀ act, a ≠ .conn k act) → s'.connections k = s.connections k →
      connLog k os = [] →
      (s.connections k = none ∧ connLog k os = [] ∧
        (s'.connections k = none ∨ s'.connections k = some newConnection)) ∨
      ∃ c c', s.connections k = some c ∧ s'.connections k = some c' ∧
        ConnChange s s' (busLog os) k c a c' (connLog k os) := by
    intro hact hsame hlog
    cases hk : s.connections k with
    | none => exact .inl ⟨rfl, hlog, .inl (hsame.trans hk)⟩
    | some c => exact .inr ⟨c, c, rfl, hsame.trans hk, by rw [hlog]; exact .stay hact⟩
  cases h with
  | bus => exact hother nofun rfl (by simp)
  | beginShutdown => exact hother nofun rfl (by simp)
  | @accept k' hnone =>
    by_cases hk : k = k'
    · subst hk
      exact .inl ⟨hnone, rfl, .inr (by simp [Server.setConn])⟩
    · exact hother nofun (Server.setConn_of_ne _ _ hk) rfl
  | @peerSend k' frame c p hc hw =>
    by_cases hk : k = k'
    · subst hk
      exact .inr ⟨_, _, hc, Server.setConn_self _ _ _, .peerSend hw⟩
    · exact hother nofun (Server.setConn_of_ne _ _ hk) rfl
  | @conn k' a c c' obs hc hm =>
    by_cases hk : k = k'
    · subst hk
      refine .inr ⟨_, _, hc, Server.setConn_self _ _ _, ?_⟩
      rw [connLog_map_conn_self]
      exact .move hm ⟨rfl, busLog_map_conn _ _⟩
    · refine hother (by simp [Ne.symm hk]) (Server.setConn_of_ne _ _ hk) ?_
      exact connLog_map_conn_of_ne (Ne.symm hk) _
  | @connBus k' a c c' b bus os obs hc hm hstep =>
    by_cases hk : k = k'
    · subst hk
      refine .inr ⟨_, _, hc, Server.setConn_self _ _ _, ?_⟩
      rw [connLog_append, connLog_map_bus, connLog_map_conn_self, List.nil_append, busLog_append,
        busLog_map_bus, busLog_map_conn, List.append_nil]
      exact .move hm hstep
    · refine hother (by simp [Ne.symm hk]) (Server.setConn_of_ne _ _ hk) ?_
      rw [connLog_append, connLog_map_bus, connLog_map_conn_of_ne (Ne.symm hk), List.append_nil]
  | @drainConn conns todo k' c hctl hc hmu =>
    by_cases hk : k = k'
    · subst hk
      exact .inr ⟨_, _, hc, Server.setConn_self _ _ _, .drain hctl hmu⟩
    · exact hother nofun (Server.setConn_of_ne _ _ hk) rfl
  | @closeConn k' todo c hctl hc =>
    by_cases hk : k = k'
    · subst hk
      exact .inr ⟨_, _, hc, Server.setConn_self _ _ _, .close hctl⟩
    · exact hother nofun (Server.setConn_of_ne _ _ hk) rfl
  | gracefulShutdown => exact hother nofun rfl (by simp [connLog, ServerObs.conn?])
  | _ => exact hother nofun rfl rfl

/-- A connection after a step is a new one, or comes from the one before. -/
theorem ServerEffect.conn_cases (h : ServerEffect s a s' os) {c' : Connection}
    (hc' : s'.connections k = some c') :
    (s.connections k = none ∧ c' = newConnection ∧ connLog k os = []) ∨
      ∃ c obs, s.connections k = some c ∧ connLog k os = obs ∧
        ConnChange s s' (busLog os) k c a c' obs := by
  rcases h.conn_change k with ⟨hnone, hlog, hk | hk⟩ | ⟨c, c₁, hc, hk, hch⟩
  · rw [hc'] at hk
    cases hk
  · rw [hc', Option.some.injEq] at hk
    exact .inl ⟨hnone, hk, hlog⟩
  · rw [hc', Option.some.injEq] at hk
    subst hk
    exact .inr ⟨c, _, hc, rfl, hch⟩

/-- A connection that is not there has reported nothing. -/
theorem connLog_eq_nil (h : (Server.lts config).Reach G log s) (hk : s.connections k = none) :
    connLog k log = [] := by
  refine h.invariant (P := fun log s => s.connections k = none → connLog k log = [])
    (fun _ _ _ => rfl) ?_ hk
  intro log s a s' os hinv _ hstep hk'
  rw [connLog_append]
  rcases (server_step_effect hstep).conn_change k with ⟨hnone, hlog, -⟩ | ⟨c, c', -, hc', -⟩
  · rw [hinv hnone, hlog]
    rfl
  · rw [hk'] at hc'
    cases hc'

/-- The step of a goroutine of connection `k`. -/
def ServerAction.on (k : ConnId) : ServerAction → Option ConnAction
  | .conn k' a => if k' = k then some a else none
  | _ => none

@[simp] theorem ServerAction.on_conn (k : ConnId) (a : ConnAction) :
    (ServerAction.conn k a).on k = some a := by
  simp [ServerAction.on]

section Induct

variable {I : List ConnObs → Bus → Connection → Prop}

/-- The invariant rule for a connection, for guards that depend on the run so far: what holds
    of a new connection and is kept by every change of it holds. -/
theorem Server.conn_induct_history {K : Server × List ServerObs → ServerAction → Prop}
    {s : Server × List ServerObs} (h : (Server.lts config).history.Reach K log s)
    (hc : s.1.connections k = some c) (hnew : ∀ w, I [] w newConnection)
    (hstep : ∀ log s a s' os c c' obs b, (Server.lts config).history.Reach K log (s, log) →
      (Server.lts config).history.Reach K (log ++ os) (s', log ++ os) →
      s.connections k = some c → s'.connections k = some c' → K (s, log) a →
      BusStep s.bus b s'.bus (busLog os) → ConnChange s s' (busLog os) k c a c' obs →
      I (connLog k log) s.bus c → I (connLog k log ++ obs) s'.bus c') :
    I (connLog k log) s.1.bus c := by
  refine h.induct_history
    (P := fun log s => ∀ c, s.connections k = some c → I (connLog k log) s.bus c) ?_ ?_ c hc
  · rintro _ rfl c hc
    cases hc
  · intro log s a s' os hr ih hk hs c' hc'
    have hr' : (Server.lts config).history.Reach K (log ++ os) (s', log ++ os) :=
      hr.next hk (Lts.history_step_of hs)
    have heff := server_step_effect hs
    obtain ⟨b, hb⟩ := heff.bus_step
    rw [connLog_append]
    rcases heff.conn_cases hc' with ⟨hnone, rfl, hlog⟩ | ⟨c, obs, hc, hlog, hch⟩
    · have hreach : (Server.lts config).Reach Lts.Always log s := hr.of_history fun _ _ _ => trivial
      rw [connLog_eq_nil hreach hnone, hlog]
      exact hnew s'.bus
    · rw [hlog]
      exact hstep log s a s' os c c' obs b hr hr' hc hc' hk hb hch (ih c hc)

/-- The invariant rule for a connection. -/
theorem Server.conn_induct {G : Server → ServerAction → Prop} {s : Server}
    (h : (Server.lts config).Reach G log s) (hc : s.connections k = some c)
    (hnew : ∀ w, I [] w newConnection)
    (hstep : ∀ log s a s' os c c' obs b, (Server.lts config).Reach G log s →
      (Server.lts config).Reach G (log ++ os) s' → s.connections k = some c →
      s'.connections k = some c' → G s a → BusStep s.bus b s'.bus (busLog os) →
      ConnChange s s' (busLog os) k c a c' obs → I (connLog k log) s.bus c →
      I (connLog k log ++ obs) s'.bus c') : I (connLog k log) s.bus c := by
  refine Server.conn_induct_history h.to_history hc hnew ?_
  intro log s a s' os c c' obs b hr hr' hc hc' hg hb hch ih
  exact hstep log s a s' os c c' obs b (hr.of_history fun _ _ h => h)
    (hr'.of_history fun _ _ h => h) hc hc' hg hb hch ih

end Induct

/-- `serve` reads from the head of the input, one frame at a time. -/
theorem ConnMove.input {a : ConnAction} {out : Out} (h : ConnMove s c a out) :
    c.input = out.obs.filterMap ConnObs.read? ++ out.conn.input := by
  cases h with
  | connect _ _ hin | read _ _ hin => exact hin
  | serve _ hm => cases hm <;> rfl
  | deliver _ hm => cases hm <;> rfl
  | graceful _ hm => cases hm <;> rfl
  | _ => rfl

/-- A peer sends frames that `WriteFrame` accepts. -/
theorem frames_writable (h : (Server.lts config).Reach G log s) (hc : s.connections k = some c) :
    ∀ frame ∈ (connLog k log).filterMap ConnObs.read? ++ c.input,
      ∃ bytes, writeFrame frame = .ok bytes := by
  refine Server.conn_induct h hc (I := fun L _ c =>
    ∀ frame ∈ L.filterMap ConnObs.read? ++ c.input, ∃ bytes, writeFrame frame = .ok bytes)
    (fun _ => nofun) ?_
  intro log s a s' os c c' obs b _ _ _ _ _ _ hch hbefore frame hmem
  rw [List.filterMap_append, List.append_assoc] at hmem
  cases hch with
  | move hm =>
    rw [← hm.input] at hmem
    exact hbefore frame hmem
  | peerSend hw =>
    replace hmem : frame ∈ _ ++ (c.input ++ [_]) := hmem
    rw [← List.append_assoc] at hmem
    rcases List.mem_append.mp hmem with hold | hnew
    · exact hbefore frame hold
    · obtain rfl := List.mem_singleton.mp hnew
      exact ⟨_, hw⟩
  | _ => exact hbefore frame hmem

/-- The frames that `serve` has read are such frames. -/
theorem read_writable (h : (Server.lts config).Reach G log s)
    (hread : .read frame ∈ connLog k log) : ∃ bytes, writeFrame frame = .ok bytes := by
  cases hc : s.connections k with
  | none =>
    rw [connLog_eq_nil h hc] at hread
    cases hread
  | some c =>
    have hmem : frame ∈ (connLog k log).filterMap ConnObs.read? :=
      List.mem_filterMap.mpr ⟨_, hread, rfl⟩
    exact frames_writable h hc frame (List.mem_append_left _ hmem)

end EventBus
