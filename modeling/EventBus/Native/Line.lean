import EventBus.ForStd.Lts
import EventBus.Native.Frame

/-!
# The sending side of a connection

Model of `connection.send` and of `Client.send` at the level of bytes. In the models of the server
and of the client a write puts a whole frame on the wire or fails. Here any number of goroutines
call `send` on one connection: each takes the lock `c.write`, and `WriteFrame` then hands the
header and the payload to the socket, which takes them in pieces. A call of `Write` may take a
part of what it is given, may take nothing, and may return an error after it has taken something.
-/

namespace EventBus

/-- The identity of a call of `send`. -/
abbrev SendId := Nat

/-- What `send` returns. -/
inductive SendErr where
  /-- `ErrClientClosed` -/
  | clientClosed
  | write (err : WriteErr)
deriving DecidableEq, Repr

/-- Where a call of `send` stands. -/
inductive SendPc where
  /-- In `Client.send`, at the `select` on `c.done`. -/
  | select (frame : Frame)
  /-- At `c.write.Lock()`. -/
  | lock (frame : Frame)
  /-- At the checks of `WriteFrame`. -/
  | check (frame : Frame)
  /-- In `writeFull`, with `left` still to be written of what it was given; `next` is what
      `WriteFrame` gives to `writeFull` afterwards. -/
  | writing (frame : Frame) (left : Bytes) (next : Option Bytes)
  /-- At the deferred `c.write.Unlock()`, returning `err`. -/
  | unlock (err : Option WriteErr)
  | returned (err : Option SendErr)
deriving DecidableEq, Repr

/-- A connection, as far as `send` uses it. -/
structure Line where
  /-- `c.done` of a client is closed. -/
  done : Bool
  /-- The call that holds `c.write`. -/
  holder : Option SendId
  /-- The bytes that the socket has taken. -/
  sent : Bytes
  /-- A call of `Write` has returned an error, or has taken nothing. -/
  failed : Bool
  sends : SendId → Option SendPc

/-- What a step does that a run remembers. -/
inductive LineObs where
  | called (s : SendId) (frame : Frame)
  /-- `WriteFrame` returns; of the bytes of the frame, `left` have not been taken. -/
  | finished (s : SendId) (frame : Frame) (left : Bytes) (err : Option WriteErr)
  | returned (s : SendId) (err : Option SendErr)
deriving DecidableEq, Repr

/-- One step of a call of `send`, with the choices of the socket, or of `Client.Close`. -/
inductive LineAction where
  | connectionSend (s : SendId) (frame : Frame)
  | clientSend (s : SendId) (frame : Frame)
  | select (s : SendId)
  | lock (s : SendId)
  | check (s : SendId)
  /-- `Write` takes `n` bytes, at least one, and returns no error. -/
  | write (s : SendId) (n : Nat)
  /-- `Write` takes nothing and returns no error. -/
  | writeNothing (s : SendId)
  /-- `Write` takes `n` bytes and returns an error of this text. -/
  | writeFails (s : SendId) (n : Nat) (text : Bytes)
  /-- The loop of `writeFull` ends. -/
  | writeDone (s : SendId)
  | unlock (s : SendId)
  /-- `close(c.done)`. -/
  | closeDone
deriving DecidableEq, Repr

/-- The bytes of a frame. -/
def Frame.bytes (frame : Frame) : Bytes := frame.header ++ frame.payload

namespace Line

def setPc (l : Line) (s : SendId) (pc : SendPc) : Line :=
  { l with sends := Function.update l.sends s (some pc) }

/-- A new call of `send`. -/
def call (l : Line) (s : SendId) (frame : Frame) (pc : SendPc) : Option (Line × List LineObs) :=
  match l.sends s with
  | none => some (l.setPc s pc, [.called s frame])
  | some _ => none

def connectionSend (l : Line) (s : SendId) (frame : Frame) : Option (Line × List LineObs) :=
  l.call s frame (.lock frame)

def clientSend (l : Line) (s : SendId) (frame : Frame) : Option (Line × List LineObs) :=
  l.call s frame (.select frame)

/-- The `select` of `Client.send`. -/
def select (l : Line) (s : SendId) : Option (Line × List LineObs) :=
  match l.sends s with
  | some (.select frame) =>
    if l.done then
      some (l.setPc s (.returned (some .clientClosed)), [.returned s (some .clientClosed)])
    else some (l.setPc s (.lock frame), [])
  | _ => none

def lock (l : Line) (s : SendId) : Option (Line × List LineObs) :=
  match l.sends s with
  | some (.lock frame) =>
    if l.holder = none then some ({ l with holder := some s }.setPc s (.check frame), [])
    else none
  | _ => none

/-- `WriteFrame` up to its first call of `writeFull`. -/
def check (l : Line) (s : SendId) : Option (Line × List LineObs) :=
  match l.sends s with
  | some (.check frame) =>
    match writeFrame frame with
    | .error err =>
      some (l.setPc s (.unlock (some (.frame err))),
        [.finished s frame frame.bytes (some (.frame err))])
    | .ok _ => some (l.setPc s (.writing frame frame.header (some frame.payload)), [])
  | _ => none

def write (l : Line) (s : SendId) (n : Nat) : Option (Line × List LineObs) :=
  match l.sends s with
  | some (.writing frame left next) =>
    if 0 < n ∧ n ≤ left.length then
      some ({ l with sent := l.sent ++ left.take n }.setPc s
        (.writing frame (left.drop n) next), [])
    else none
  | _ => none

/-- `io.ErrShortWrite` -/
def writeNothing (l : Line) (s : SendId) : Option (Line × List LineObs) :=
  match l.sends s with
  | some (.writing frame left next) =>
    if left = [] then none
    else
      some ({ l with failed := true }.setPc s (.unlock (some .shortWrite)),
        [.finished s frame (left ++ next.getD []) (some .shortWrite)])
  | _ => none

def writeFails (l : Line) (s : SendId) (n : Nat) (text : Bytes) : Option (Line × List LineObs) :=
  match l.sends s with
  | some (.writing frame left next) =>
    if left ≠ [] ∧ n ≤ left.length then
      some ({ l with sent := l.sent ++ left.take n, failed := true }.setPc s
          (.unlock (some (.writer text))),
        [.finished s frame (left.drop n ++ next.getD []) (some (.writer text))])
    else none
  | _ => none

/-- `writeFull` returns; `WriteFrame` goes on with the payload, or returns. -/
def writeDone (l : Line) (s : SendId) : Option (Line × List LineObs) :=
  match l.sends s with
  | some (.writing frame [] (some payload)) => some (l.setPc s (.writing frame payload none), [])
  | some (.writing frame [] none) =>
    some (l.setPc s (.unlock none), [.finished s frame [] none])
  | _ => none

def unlock (l : Line) (s : SendId) : Option (Line × List LineObs) :=
  match l.sends s with
  | some (.unlock err) =>
    some ({ l with holder := none }.setPc s (.returned (err.map .write)),
      [.returned s (err.map .write)])
  | _ => none

def step (l : Line) : LineAction → Option (Line × List LineObs)
  | .connectionSend s frame => l.connectionSend s frame
  | .clientSend s frame => l.clientSend s frame
  | .select s => l.select s
  | .lock s => l.lock s
  | .check s => l.check s
  | .write s n => l.write s n
  | .writeNothing s => l.writeNothing s
  | .writeFails s n text => l.writeFails s n text
  | .writeDone s => l.writeDone s
  | .unlock s => l.unlock s
  | .closeDone => some ({ l with done := true }, [])

end Line

/-- A new connection. -/
def newLine : Line where
  done := false
  holder := none
  sent := []
  failed := false
  sends := fun _ => none

/-- The runs of the calls of `send` on one connection. -/
def Line.lts : Lts Line LineAction LineObs where
  init l := l = newLine
  step := Line.step

end EventBus
