import EventBus.Native.Server

/-!
# The server on byte streams

In the model of the server a peer sends whole frames, and `ReadFrame` may fail at any time. Here
a peer sends bytes: `ReadFrame` reads a frame off the bytes that have arrived, waits for more
bytes, or returns an error that they call for. All other steps are those of the server.
-/

namespace EventBus

/-- What `serve` does for its peer: a call of the broker, or the removal of a topic. -/
inductive SessionRequest where
  /-- `broker.Subscribe` -/
  | subscribe (topic : Bytes)
  /-- `broker.PublishWithResult` -/
  | publish (event : Event)
  /-- `delete(c.subs, topic)` in `unsubscribe`, whether or not the topic is there. -/
  | remove (topic : Bytes)
deriving DecidableEq, Repr

/-- The request that a step makes. -/
def Connection.request? (c : Connection) (a : ConnAction) : Option SessionRequest :=
  match a, c.serve with
  | .subscribeCall _, .subscribeCall topic => some (.subscribe topic)
  | .publishCall _, .publishCall message => some (.publish message.event)
  | .serveDispatch, .handle frame =>
    if frame.type = typeUnsubscribe then
      match decodeTopic frame.payload with
      | .error _ => none
      | .ok message => some (.remove message.topic)
    else none
  | _, _ => none

/-- The bytes from a peer. -/
structure ByteStream where
  /-- The bytes that have arrived and that `serve` has not read. -/
  unread : Bytes
  /-- No more bytes will arrive. -/
  ended : Bool

/-- `ReadFrame` returns an error. With a part of a frame it waits until the stream has ended. -/
def ByteStream.fails (stream : ByteStream) : Bool :=
  match readFrame stream.unread with
  | .ok _ => false
  | .error .eof | .error .unexpectedEOF => stream.ended
  | .error _ => true

/-- A server and the streams of its connections. -/
structure Wire where
  server : Server
  streams : ConnId → ByteStream

/-- What a step does that a run remembers. -/
inductive WireObs where
  | server (o : ServerObs)
  /-- Bytes arrive. -/
  | arrived (k : ConnId) (bytes : Bytes)
  | request (k : ConnId) (r : SessionRequest)
  /-- `ReadFrame` returns an error because `c.net` has been closed. -/
  | cut (k : ConnId)
deriving DecidableEq, Repr

/-- One step of the server or of a peer. -/
inductive WireAction where
  | server (a : ServerAction)
  /-- The peer of connection `k` sends bytes. -/
  | peerWrite (k : ConnId) (bytes : Bytes)
  /-- The stream of connection `k` ends, at whatever byte. -/
  | peerEnd (k : ConnId)
  | readFrame (k : ConnId)
  /-- `ReadFrame` returns an error that the stream calls for. -/
  | readFrameFails (k : ConnId)
  /-- `ReadFrame` returns an error because `c.net` has been closed. -/
  | readClosed (k : ConnId)
deriving DecidableEq, Repr

/-- The steps of the server that stand for bytes of a peer. -/
def ServerAction.reads : ServerAction → Bool
  | .peerSend .. | .conn _ .serveRead | .conn _ .serveReadFails => true
  | _ => false

namespace Wire

def setStream (w : Wire) (k : ConnId) (stream : ByteStream) : Wire :=
  { w with streams := Function.update w.streams k stream }

/-- The request that a step of the server makes. -/
def requestObs (w : Wire) : ServerAction → List WireObs
  | .conn k a =>
    match w.server.connections k with
    | some c => (c.request? a).toList.map (.request k)
    | none => []
  | _ => []

def serverStep (w : Wire) (a : ServerAction) : Option (Wire × List WireObs) :=
  if a.reads then none
  else
    match w.server.step a with
    | some (s, os) => some ({ w with server := s }, os.map .server ++ w.requestObs a)
    | none => none

def peerWrite (w : Wire) (k : ConnId) (bytes : Bytes) : Option (Wire × List WireObs) :=
  let stream := w.streams k
  if stream.ended then none
  else some (w.setStream k { stream with unread := stream.unread ++ bytes }, [.arrived k bytes])

def peerEnd (w : Wire) (k : ConnId) : Option (Wire × List WireObs) :=
  some (w.setStream k { w.streams k with ended := true }, [])

/-- `ReadFrame`, which yields a frame: the input of the connection is this one frame. -/
def readFrame (w : Wire) (k : ConnId) : Option (Wire × List WireObs) :=
  match EventBus.readFrame (w.streams k).unread with
  | .ok (frame, rest) =>
    match w.server.step (.peerSend k frame) with
    | some (s, _) =>
      match s.step (.conn k .serveRead) with
      | some (s, os) =>
        some (({ w with server := s }).setStream k { w.streams k with unread := rest },
          os.map .server)
      | none => none
    | none => none
  | .error _ => none

/-- `serve` gets an error from `ReadFrame`. -/
def serveReadFails (w : Wire) (k : ConnId) (obs : List WireObs) : Option (Wire × List WireObs) :=
  match w.server.step (.conn k .serveReadFails) with
  | some (s, os) => some ({ w with server := s }, os.map .server ++ obs)
  | none => none

def readFrameFails (w : Wire) (k : ConnId) : Option (Wire × List WireObs) :=
  if (w.streams k).fails then w.serveReadFails k [] else none

def readClosed (w : Wire) (k : ConnId) : Option (Wire × List WireObs) :=
  match w.server.connections k with
  | some c => if c.netClosed then w.serveReadFails k [.cut k] else none
  | none => none

def step (w : Wire) : WireAction → Option (Wire × List WireObs)
  | .server a => w.serverStep a
  | .peerWrite k bytes => w.peerWrite k bytes
  | .peerEnd k => w.peerEnd k
  | .readFrame k => w.readFrame k
  | .readFrameFails k => w.readFrameFails k
  | .readClosed k => w.readClosed k

end Wire

def newWire (config : Config) : Wire where
  server := newServer config
  streams := fun _ => ⟨[], false⟩

/-- The runs of a server whose peers send bytes. -/
def Wire.lts (config : Config) : Lts Wire WireAction WireObs where
  init w := w = newWire config
  step := Wire.step

end EventBus
