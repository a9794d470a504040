import EventBus.Native.Session
import EventBus.Spec.ClientStep
import EventBus.Spec.ServerStep

/-!
# What a step of a session can do

A step of a session is a step of the server or of the client, together with the frames it
puts on the wire. A run of a session is a run of its server and a run of its client, and
each end has read the frames that the other has written, in order and up to those that
are still on the wire.

## Key results

- `session_step_effect`: every step of a session is one of the effects
- `Session.reach_server`, `Session.reach_client`: a run of a session is a run of either end
- `wire_inv`: what has been read, and what is still on the wire
-/

namespace EventBus

variable {c c' : Client} {a : ClientAction} {os : List ClientObs} {k : ConnId} {s : Session}
  {H : Client → ClientAction → Prop}

/-- A frame read by `readLoop`. -/
def ClientObs.read? : ClientObs → Option Frame
  | .read frame => some frame
  | _ => none

def SessionObs.server? : SessionObs → Option ServerObs
  | .server o => some o
  | _ => none

def SessionObs.client? : SessionObs → Option ClientObs
  | .client o => some o
  | _ => none

/-- What the server reports in a run of a session. -/
def serverLog (log : List SessionObs) : List ServerObs := log.filterMap SessionObs.server?

/-- What the client reports in a run of a session. -/
def clientLog (log : List SessionObs) : List ClientObs := log.filterMap SessionObs.client?

@[simp] theorem serverLog_append (log log' : List SessionObs) :
    serverLog (log ++ log') = serverLog log ++ serverLog log' := List.filterMap_append

@[simp] theorem clientLog_append (log log' : List SessionObs) :
    clientLog (log ++ log') = clientLog log ++ clientLog log' := List.filterMap_append

@[simp] theorem serverLog_map_server (os : List ServerObs) : serverLog (os.map .server) = os := by
  simp [serverLog, List.filterMap_map, Function.comp_def, SessionObs.server?]

@[simp] theorem serverLog_map_client (os : List ClientObs) : serverLog (os.map .client) = [] := by
  simp [serverLog, List.filterMap_map, Function.comp_def, SessionObs.server?]

@[simp] theorem clientLog_map_client (os : List ClientObs) : clientLog (os.map .client) = os := by
  simp [clientLog, List.filterMap_map, Function.comp_def, SessionObs.client?]

@[simp] theorem clientLog_map_server (os : List ServerObs) : clientLog (os.map .server) = [] := by
  simp [clientLog, List.filterMap_map, Function.comp_def, SessionObs.client?]

/-- The frames written on connection `k`, as the connection reports them. -/
theorem filterMap_wrote (k : ConnId) (os : List ServerObs) :
    os.filterMap (ServerObs.wrote? k) = (connLog k os).filterMap ConnObs.wrote? := by
  rw [connLog, List.filterMap_filterMap]
  congr 1
  funext o
  cases o with
  | conn k' o =>
    by_cases hk : k' = k
    · cases o <;> simp [ServerObs.wrote?, ServerObs.conn?, ConnObs.wrote?, hk]
    · cases o <;> simp [ServerObs.wrote?, ServerObs.conn?, hk]
  | _ => rfl

/-! ## Steps -/

/-- The client with more frames on the wire. -/
def Client.sent (c : Client) (frames : List Frame) : Client :=
  { c with input := c.input ++ frames }

/-- Every change a step of a session can make, with the observations it reports. -/
inductive SessionEffect (k : ConnId) (s : Session) :
    SessionAction → Session → List SessionObs → Prop
  | server {a : ServerAction} {server : Server} {os : List ServerObs} : a.fromPeer k = false →
      s.server.step a = some (server, os) →
      SessionEffect k s (.server a)
        ⟨server, s.client.sent ((connLog k os).filterMap ConnObs.wrote?)⟩ (os.map .server)
  | client {a : ClientAction} {client : Client} {os : List ClientObs} : a.fromPeer = false →
      s.client.step a = some (client, os) → os.filterMap ClientObs.sent? = [] →
      SessionEffect k s (.client a) ⟨s.server, client⟩ (os.map .client)
  | send {a : ClientAction} {client : Client} {os : List ClientObs} {frame : Frame}
      {server : Server} : a.fromPeer = false → s.client.step a = some (client, os) →
      os.filterMap ClientObs.sent? = [frame] →
      s.server.step (.peerSend k frame) = some (server, []) →
      SessionEffect k s (.client a) ⟨server, client⟩ (os.map .client)

/-- The client writes one frame at a time. -/
theorem ClientEffect.sent_le_one (h : ClientEffect c a c' os) :
    (os.filterMap ClientObs.sent?).length ≤ 1 := by
  have hret : ∀ call pc, (Client.returnObs call pc).filterMap ClientObs.sent? = [] := by
    intro call pc
    cases pc <;> rfl
  cases h with
  | call _ hm =>
    rw [List.filterMap_append, hret, List.append_nil]
    cases hm <;> simp [ClientObs.sent?, Client.registerCall, List.filterMap_cons]
  | readAcknowledge _ hm =>
    cases hm <;> simp [ClientObs.sent?, Client.registerCall, List.filterMap_cons]
  | invoke => simp [ClientObs.sent?, List.filterMap_cons, hret]
  | _ => simp [ClientObs.sent?, List.filterMap_cons]

/-- Every step of the session is one of the effects. -/
theorem session_step_effect {s' : Session} {a : SessionAction} {os : List SessionObs}
    (h : s.step k a = some (s', os)) : SessionEffect k s a s' os := by
  cases a with
  | server a =>
    replace h : s.serverStep k a = some (s', os) := h
    unfold Session.serverStep at h
    split at h
    · cases h
    rename_i hpeer
    split at h
    · rename_i hstep
      cases h
      rw [filterMap_wrote]
      exact .server (by simpa using hpeer) hstep
    · cases h
  | client a =>
    replace h : s.clientStep k a = some (s', os) := h
    unfold Session.clientStep at h
    split at h
    · cases h
    rename_i hpeer
    split at h
    · rename_i hstep
      split at h
      · rename_i hsent
        cases h
        exact .client (by simpa using hpeer) hstep hsent
      · rename_i frame rest hsent
        split at h
        · rename_i hserver
          cases h
          have hone := (client_step_effect hstep).sent_le_one
          rw [hsent, List.length_cons] at hone
          obtain rfl := List.eq_nil_of_length_eq_zero (by omega : rest.length = 0)
          have hobs := server_step_effect hserver
          cases hobs
          exact .send (by simpa using hpeer) hstep hsent hserver
        · cases h
    · cases h

/-! ## Either end -/

section Project

variable {config : Config} {G : Session → SessionAction → Prop} {log : List SessionObs}

/-- A run of a session is a run of its server, under a guard that the steps of the server
    satisfy and that does not concern the peer of connection `k`. -/
theorem Session.reach_server_of {H : Server → ServerAction → Prop}
    (hG : ∀ s a, G s (.server a) → H s.server a) (hpeer : ∀ s frame, H s (.peerSend k frame))
    (h : (Session.lts config k).Reach G log s) :
    (Server.lts config).Reach H (serverLog log) s.server := by
  obtain ⟨s₀, rfl, hsteps⟩ := h
  refine ⟨_, rfl, hsteps.project Session.server SessionObs.server? fun s a s' os hg hs => ?_⟩
  show (Server.lts config).Steps _ _ (serverLog os) _
  cases session_step_effect hs with
  | server _ hstep =>
    rw [serverLog_map_server]
    exact .single (hG _ _ hg) hstep
  | client =>
    rw [serverLog_map_client]
    exact .refl _
  | send _ _ _ hserver =>
    rw [serverLog_map_client]
    exact .single (a := .peerSend k _) (hpeer _ _) hserver

/-- A run of the session is a run of its server. -/
theorem Session.reach_server (h : (Session.lts config k).Reach G log s) :
    (Server.lts config).Reach Lts.Always (serverLog log) s.server :=
  Session.reach_server_of (fun _ _ _ => trivial) (fun _ _ => trivial) h

/-- The frames of the server reach the client one by one. -/
theorem Client.steps_sent (hpeer : ∀ c frame, H c (.peerSend frame)) (c : Client)
    (frames : List Frame) :
    Client.lts.Steps H c [] (c.sent frames) := by
  induction frames generalizing c with
  | nil =>
    rw [Client.sent, List.append_nil]
    exact .refl _
  | cons frame frames ih =>
    have hone : Client.lts.Steps H c [] (c.sent [frame]) :=
      .single (a := .peerSend frame) (hpeer _ _) rfl
    have hrest := hone.trans (ih _)
    rwa [Client.sent, Client.sent, List.append_assoc] at hrest

/-- A run of a session is a run of its client, under a guard that the steps of the client
    satisfy and that does not concern its server. -/
theorem Session.reach_client_of (hG : ∀ s a, G s (.client a) → H s.client a)
    (hpeer : ∀ c frame, H c (.peerSend frame)) (h : (Session.lts config k).Reach G log s) :
    Client.lts.Reach H (clientLog log) s.client := by
  obtain ⟨s₀, rfl, hsteps⟩ := h
  refine ⟨_, rfl, hsteps.project Session.client SessionObs.client? fun s a s' os hg hs => ?_⟩
  show Client.lts.Steps _ _ (clientLog os) _
  cases session_step_effect hs with
  | server =>
    rw [clientLog_map_server]
    exact Client.steps_sent hpeer s.client _
  | client _ hstep | send _ hstep =>
    rw [clientLog_map_client]
    exact .single (hG _ _ hg) hstep

/-- A run of the session is a run of its client. -/
theorem Session.reach_client (h : (Session.lts config k).Reach G log s) :
    Client.lts.Reach Lts.Always (clientLog log) s.client :=
  Session.reach_client_of (fun _ _ _ => trivial) (fun _ _ => trivial) h

end Project

/-! ## The wire -/

/-- The connection has taken from its input what it has read. -/
theorem ConnChange.input {s s' : Server} {bos : List Obs} {c c' : Connection} {a : ServerAction}
    {obs : List ConnObs} (h : ConnChange s s' bos k c a c' obs) (hpeer : a.fromPeer k = false) :
    c.input = obs.filterMap ConnObs.read? ++ c'.input := by
  cases h with
  | move hm => exact hm.input
  | peerSend => simp [ServerAction.fromPeer] at hpeer
  | _ => rfl

/-- A call reads no frame. -/
theorem CallMove.input {call : ClientCall} {a : CallAction} {pc : ClientPc} {out : CallOut}
    (h : CallMove c call a pc out) :
    out.client.input = c.input ∧ out.obs.filterMap ClientObs.read? = [] := by
  obtain ⟨_, _, _, _, heq⟩ := h.client_eq
  refine ⟨by rw [heq], ?_⟩
  cases h <;> rfl

theorem Client.filterMap_read_returnObs (call : ClientCall) (pc : ClientPc) :
    (Client.returnObs call pc).filterMap ClientObs.read? = [] := by
  cases pc <;> rfl

/-- `readLoop` reads from the head of the input, one frame at a time. -/
theorem ClientEffect.input (h : ClientEffect c a c' os) (hpeer : a.fromPeer = false) :
    c.input = os.filterMap ClientObs.read? ++ c'.input := by
  cases h with
  | peerSend => cases hpeer
  | read _ _ hin => exact hin
  | invoke =>
    show _ = (Client.returnObs _ _).filterMap ClientObs.read? ++ _
    rw [Client.filterMap_read_returnObs]
    rfl
  | call _ hm =>
    rw [List.filterMap_append, hm.input.2, Client.filterMap_read_returnObs]
    exact hm.input.1.symm
  | readAcknowledge _ hm =>
    rw [hm.input.2]
    exact hm.input.1.symm
  | _ => rfl

/-- Either end has read what the other has written, up to what is still on the wire. -/
structure WireInv (k : ConnId) (log : List SessionObs) (s : Session) : Prop where
  toClient : (connLog k (serverLog log)).filterMap ConnObs.wrote? =
    (clientLog log).filterMap ClientObs.read? ++ s.client.input
  toServer : ∀ c, s.server.connections k = some c →
    (clientLog log).filterMap ClientObs.sent? =
      (connLog k (serverLog log)).filterMap ConnObs.read? ++ c.input
  unserved : s.server.connections k = none → (clientLog log).filterMap ClientObs.sent? = []

/-- Each end has read, or has before it, what the other end has written, in every run. -/
theorem wire_inv {config : Config} {G : Session → SessionAction → Prop} {log : List SessionObs}
    (h : (Session.lts config k).Reach G log s) :
    WireInv k log s := by
  refine h.induct_reach (P := fun log s => WireInv k log s) ?_ ?_
  · rintro _ rfl
    exact ⟨rfl, fun c hc => absurd hc (Option.some_ne_none c).symm, fun _ => rfl⟩
  intro log s a s' os hr hinv _ hstep
  cases session_step_effect hstep with
  | @server a server os hpeer hserver =>
    have heff := server_step_effect hserver
    constructor
    · simp [hinv.toClient, Client.sent]
    · intro c' hc'
      rcases heff.conn_cases hc' with ⟨hnone, rfl, hlog⟩ | ⟨c, obs, hc, hlog, hch⟩
      · simp [hinv.unserved hnone, hlog, connLog_eq_nil (Session.reach_server hr) hnone,
          newConnection]
      · simp [hinv.toServer c hc, hlog, hch.input hpeer]
    · intro hnone
      rcases heff.conn_change k with ⟨hbefore, -⟩ | ⟨c, c', -, hc', -⟩
      · simpa using hinv.unserved hbefore
      · exact absurd (hnone.symm.trans hc') (Option.some_ne_none c').symm
  | client hpeer hclient hsent =>
    have hin := (client_step_effect hclient).input hpeer
    constructor
    · simp [hinv.toClient, hin]
    · intro c hc
      simpa [hsent] using hinv.toServer c hc
    · intro hnone
      simpa [hsent] using hinv.unserved hnone
  | send hpeer hclient hsent hserver =>
    have hin := (client_step_effect hclient).input hpeer
    have heff := server_step_effect hserver
    cases heff with
    | peerSend hc hw =>
      constructor
      · simp [hinv.toClient, hin]
      · intro c' hc'
        rw [Server.setConn_self, Option.some.injEq] at hc'
        subst hc'
        simp [hsent, hinv.toServer _ hc]
      · intro hnone
        rw [Server.setConn_self] at hnone
        cases hnone

/-! ## Runs -/

def serverRun (as : List ServerAction) : List SessionAction := as.map .server

def clientRun (as : List ClientAction) : List SessionAction := as.map .client

/-- The client of connection `k` dials and its CONNECT frame is read. -/
def dialRun (k : ConnId) : List SessionAction :=
  [.server (.accept k), .client (.dial []), .server (.conn k .serveRead)]

/-- The client calls a method that writes a frame, which `serve` reads. -/
def sendRun (k : ConnId) (call : ClientCall) (op : ClientOp) : List SessionAction :=
  [.client (.invoke call op), .client (.call call .check), .client (.call call .write),
    .server (.conn k .serveRead), .server (.conn k .serveDispatch)]

end EventBus
