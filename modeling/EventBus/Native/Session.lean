import EventBus.Native.Client
import EventBus.Native.Server

/-!
# A client connected to a server

A `Session` is a server with a `Client` at the other end of its connection `k`. Each frame
that a goroutine of the connection writes is appended to the client's input, and each frame
the client writes to the connection's. The peers of the other connections send what they
like.

The client dials after its connection has been accepted. A connection that is accepted
later behaves as one whose frames come later, and one that is never accepted is not served.
-/

namespace EventBus

structure Session where
  server : Server
  client : Client

inductive SessionAction where
  | server (a : ServerAction)
  | client (a : ClientAction)
deriving DecidableEq

inductive SessionObs where
  | server (o : ServerObs)
  | client (o : ClientObs)
deriving DecidableEq

/-- A frame written on connection `k`. -/
def ServerObs.wrote? (k : ConnId) : ServerObs → Option Frame
  | .conn k' (.wrote _ frame) => if k' = k then some frame else none
  | _ => none

/-- A frame written by the client. -/
def ClientObs.sent? : ClientObs → Option Frame
  | .sent frame => some frame
  | _ => none

/-- The peer of connection `k` sends a frame. -/
def ServerAction.fromPeer (k : ConnId) : ServerAction → Bool
  | .peerSend k' _ => k' = k
  | _ => false

def ClientAction.fromPeer : ClientAction → Bool
  | .peerSend _ => true
  | _ => false

namespace Session

/-- A step of the server; the client is sent what the step writes. -/
def serverStep (k : ConnId) (s : Session) (a : ServerAction) :
    Option (Session × List SessionObs) :=
  if a.fromPeer k then none
  else
    match s.server.step a with
    | some (server, os) =>
      let client := { s.client with input := s.client.input ++ os.filterMap (ServerObs.wrote? k) }
      some (⟨server, client⟩, os.map .server)
    | none => none

/-- A step of the client; the server is sent what the step writes, at most one frame. -/
def clientStep (k : ConnId) (s : Session) (a : ClientAction) :
    Option (Session × List SessionObs) :=
  if a.fromPeer then none
  else
    match s.client.step a with
    | some (client, os) =>
      match os.filterMap ClientObs.sent? with
      | [] => some (⟨s.server, client⟩, os.map .client)
      | frame :: _ =>
        match s.server.step (.peerSend k frame) with
        | some (server, _) => some (⟨server, client⟩, os.map .client)
        | none => none
    | none => none

def step (k : ConnId) (s : Session) : SessionAction → Option (Session × List SessionObs)
  | .server a => s.serverStep k a
  | .client a => s.clientStep k a

end Session

/-- The runs of a server and the client of its connection `k`. -/
def Session.lts (config : Config) (k : ConnId) : Lts Session SessionAction SessionObs where
  init s := s = ⟨newServer config, newClient⟩
  step := Session.step k

end EventBus
