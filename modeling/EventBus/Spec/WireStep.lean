import EventBus.ForStd.Scan
import EventBus.Native.Wire
import EventBus.Spec.FrameCorrect
import EventBus.Spec.ServerStep

/-!
# What a step of a server on byte streams can do

`WireEffect` lists the steps. A run of the wire is a run of the server, in which each frame that
`serve` reads was parsed from the bytes of its peer.

## Key results

- `framesOf`, `framesOf_longest`: the frames in the longest part of a stream that consists of
  frames
- `wire_step_effect`: every step is one of the effects
- `Wire.reach_server`: a run of the wire is a run of its server
- `stream_inv`: the bytes that have arrived are those of the frames read and the unread ones
-/

namespace EventBus

variable {rest bytes : Bytes} {frame : Frame} {n : Nat} {err : FrameErr} {stream : ByteStream}
  {s s' : Server} {a : ServerAction} {c : Connection} {k' : ConnId}
  {I : SessionReport → Server → Connection → ByteStream → Prop}

/-! ## The frames of a stream -/

/-- `ReadFrame`, without the error. -/
def nextFrame (r : Bytes) : Option (Frame × Bytes) := (readFrame r).toOption

/-- The frames in the longest part of a stream that consists of frames. -/
def framesOf (bytes : Bytes) : List Frame := Exact.scan nextFrame bytes

theorem nextFrame_eq_some {r : Bytes} :
    nextFrame r = some (frame, rest) ↔ readFrame r = .ok (frame, rest) := by
  unfold nextFrame
  cases readFrame r <;> simp [Except.toOption]

/-- `ReadFrame` takes from the stream exactly what `WriteFrame` wrote. -/
theorem nextFrame_exact : Exact writeFrame nextFrame := by
  intro r frame rest
  rw [nextFrame_eq_some, readFrame_ok_iff]

theorem writeFrame_ne_nil (frame : Frame) (p : Bytes) (h : writeFrame frame = .ok p) : p ≠ [] := by
  obtain ⟨-, -, rfl⟩ := (writeFrame_ok_iff frame p).mp h
  simp [Frame.header]

/-- The frames of a stream fill a part of it, and those of every such part are among them. -/
theorem framesOf_longest (bytes : Bytes) :
    (∃ p, Exact.Framed writeFrame (framesOf bytes) p ∧ p <+: bytes) ∧
      ∀ frames p, Exact.Framed writeFrame frames p → p <+: bytes → frames <+: framesOf bytes := by
  constructor
  · obtain ⟨p, rest, heq, hframed, -⟩ := nextFrame_exact.scan_framed writeFrame_ne_nil bytes
    exact ⟨p, hframed, rest, heq.symm⟩
  · exact fun frames p hframed hp => nextFrame_exact.prefix_scan writeFrame_ne_nil hframed hp

/-- More bytes leave the frames that are complete as they are. -/
theorem framesOf_mono {bytes' : Bytes} (h : bytes <+: bytes') :
    framesOf bytes <+: framesOf bytes' := nextFrame_exact.scan_prefix writeFrame_ne_nil h

/-- Whole frames come before what follows them. -/
theorem framesOf_append {frames : List Frame} {p : Bytes} (h : Exact.Framed writeFrame frames p)
    (rest : Bytes) : framesOf (p ++ rest) = frames ++ framesOf rest :=
  nextFrame_exact.scan_append writeFrame_ne_nil h rest

/-! ## Streams that fail -/

/-- `io.ReadFull` fails only where the stream ends. -/
theorem readFull_error {r : Bytes} (h : readFull n r = .error err) :
    err = .eof ∨ err = .unexpectedEOF := by
  unfold readFull at h
  split at h
  · cases h
  · split at h
    · exact .inl (Except.error.inj h).symm
    · exact .inr (Except.error.inj h).symm

/-- Bytes behind those it returns are left on the stream. -/
theorem readFull_ok_append {r : Bytes} (h : readFull n r = .ok (bytes, rest)) (more : Bytes) :
    readFull n (r ++ more) = .ok (bytes, rest ++ more) := by
  obtain ⟨hlen, rfl⟩ := (readFull_ok_iff _ _ _ _).mp h
  exact (readFull_ok_iff _ _ _ _).mpr ⟨hlen, List.append_assoc _ _ _⟩

/-- An error about the header of a frame does not depend on what follows. -/
theorem readFrame_error_append {r : Bytes} (h : readFrame r = .error err)
    (hne : err ≠ .eof ∧ err ≠ .unexpectedEOF) (more : Bytes) :
    readFrame (r ++ more) = .error err := by
  have hfull : ∀ {n : Nat} {r : Bytes}, readFull n r ≠ .error err := fun hread =>
    (readFull_error hread).elim hne.1 hne.2
  unfold readFrame at h ⊢
  cases hheader : readFull headerSize r with
  | error err' =>
    rw [hheader] at h
    obtain rfl := Except.error.inj h
    exact absurd hheader hfull
  | ok x =>
    obtain ⟨header, rest⟩ := x
    rw [hheader] at h
    rw [readFull_ok_append hheader more]
    dsimp only at h ⊢
    -- the header is complete, and what is wrong with it stays wrong
    split at h
    · rename_i hlarge
      rw [if_pos hlarge]
      exact h
    · rename_i hsize
      rw [if_neg hsize]
      split at h
      · rename_i htype
        rw [if_pos htype]
        exact h
      · split at h
        · rename_i err' hpayload
          obtain rfl := Except.error.inj h
          exact absurd hpayload hfull
        · cases h

/-- A stream that fails goes on to do so. -/
theorem ByteStream.fails_append (h : stream.fails = true) (hopen : stream.ended = false)
    (bytes : Bytes) :
    ByteStream.fails { stream with unread := stream.unread ++ bytes } = true := by
  unfold ByteStream.fails at h ⊢
  cases hread : readFrame stream.unread with
  | ok r =>
    rw [hread] at h
    cases h
  | error err =>
    rw [hread] at h
    cases err with
    | eof | unexpectedEOF => exact nomatch hopen.symm.trans h
    | tooLarge | invalid =>
      dsimp only
      rw [readFrame_error_append hread ⟨nofun, nofun⟩]

theorem ByteStream.fails_ended (h : stream.fails = true) :
    ByteStream.fails { stream with ended := true } = true := by
  unfold ByteStream.fails at h ⊢
  cases hread : readFrame stream.unread with
  | ok r =>
    rw [hread] at h
    cases h
  | error err => cases err <;> rfl

/-- It has no frame. -/
theorem ByteStream.framesOf_fails (h : stream.fails = true) :
    framesOf stream.unread = [] := by
  refine nextFrame_exact.scan_of_none writeFrame_ne_nil ?_
  unfold ByteStream.fails at h
  unfold nextFrame
  cases hread : readFrame stream.unread with
  | error err => rfl
  | ok r =>
    rw [hread] at h
    cases h

/-! ## Steps -/

/-- Every change a step can make, with the observations it reports. -/
inductive WireEffect (w : Wire) : WireAction → Wire → List WireObs → Prop
  | server {a : ServerAction} {s : Server} {os : List ServerObs} : a.reads = false →
      w.server.step a = some (s, os) →
      WireEffect w (.server a) { w with server := s } (os.map .server ++ w.requestObs a)
  | peerWrite {k : ConnId} {bytes : Bytes} : (w.streams k).ended = false →
      WireEffect w (.peerWrite k bytes)
        (w.setStream k { w.streams k with unread := (w.streams k).unread ++ bytes })
        [.arrived k bytes]
  | peerEnd {k : ConnId} :
      WireEffect w (.peerEnd k) (w.setStream k { w.streams k with ended := true }) []
  | read {k : ConnId} {frame : Frame} {rest : Bytes} {s s' : Server} {os : List ServerObs} :
      readFrame (w.streams k).unread = .ok (frame, rest) →
      w.server.step (.peerSend k frame) = some (s, []) →
      s.step (.conn k .serveRead) = some (s', os) →
      WireEffect w (.readFrame k)
        (({ w with server := s' }).setStream k { w.streams k with unread := rest })
        (os.map .server)
  | readFails {k : ConnId} {s : Server} {os : List ServerObs} : (w.streams k).fails = true →
      w.server.step (.conn k .serveReadFails) = some (s, os) →
      WireEffect w (.readFrameFails k) { w with server := s } (os.map .server ++ [])
  | readClosed {k : ConnId} {c : Connection} {s : Server} {os : List ServerObs} :
      w.server.connections k = some c → c.netClosed = true →
      w.server.step (.conn k .serveReadFails) = some (s, os) →
      WireEffect w (.readClosed k) { w with server := s } (os.map .server ++ [.cut k])

/-- That a peer sends a frame is not reported. -/
theorem peerSend_silent {k : ConnId} {os : List ServerObs}
    (h : s.step (.peerSend k frame) = some (s', os)) : os = [] := by
  cases server_step_effect h with
  | peerSend => rfl

section Inversion

variable {w w' : Wire} {os : List WireObs}

/-- A step of the server that reads nothing, with the requests it starts to carry out. -/
private theorem serverStep_effect (h : w.serverStep a = some (w', os)) :
    WireEffect w (.server a) w' os := by
  unfold Wire.serverStep at h
  split at h
  · cases h
  · rename_i hreads
    split at h
    · rename_i hstep
      cases h
      exact .server (by simpa using hreads) hstep
    · cases h

/-- `ReadFrame` returns a frame: the peer's frame arrives and is read in one step. -/
private theorem readFrame_effect {k : ConnId} (h : w.readFrame k = some (w', os)) :
    WireEffect w (.readFrame k) w' os := by
  unfold Wire.readFrame at h
  split at h
  · rename_i hread
    split at h
    · rename_i hsend
      split at h
      · rename_i hserve
        cases h
        obtain rfl := peerSend_silent hsend
        exact .read hread hsend hserve
      · cases h
    · cases h
  · cases h

/-- `ReadFrame` returns an error, whatever the wire reports of it. -/
private theorem wire_serveReadFails {k : ConnId} {obs : List WireObs}
    (h : w.serveReadFails k obs = some (w', os)) :
    ∃ s os', w.server.step (.conn k .serveReadFails) = some (s, os') ∧
      w' = { w with server := s } ∧ os = os'.map .server ++ obs := by
  unfold Wire.serveReadFails at h
  split at h
  · rename_i s os' hstep
    cases h
    exact ⟨s, os', hstep, rfl, rfl⟩
  · cases h

/-- Every step is one of the effects. -/
theorem wire_step_effect {a : WireAction} (h : w.step a = some (w', os)) :
    WireEffect w a w' os := by
  cases a with
  | server a => exact serverStep_effect h
  | peerWrite k bytes =>
    replace h : w.peerWrite k bytes = some (w', os) := h
    unfold Wire.peerWrite at h
    dsimp only at h
    split at h
    · cases h
    · rename_i hopen
      cases h
      exact .peerWrite (by simpa using hopen)
  | peerEnd k =>
    cases h
    exact .peerEnd
  | readFrame k => exact readFrame_effect h
  | readFrameFails k =>
    replace h : w.readFrameFails k = some (w', os) := h
    unfold Wire.readFrameFails at h
    split at h
    · rename_i hfails
      obtain ⟨s, os', hstep, rfl, rfl⟩ := wire_serveReadFails h
      exact .readFails hfails hstep
    · cases h
  | readClosed k =>
    replace h : w.readClosed k = some (w', os) := h
    unfold Wire.readClosed at h
    split at h
    · rename_i hc
      split at h
      · rename_i hclosed
        obtain ⟨s, os', hstep, rfl, rfl⟩ := wire_serveReadFails h
        exact .readClosed hc hclosed hstep
      · cases h
    · cases h

end Inversion

/-! ## What a run reports -/

/-- An observation of the server. -/
def WireObs.server? : WireObs → Option ServerObs
  | .server o => some o
  | _ => none

/-- The bytes that have arrived at connection `k`. -/
def WireObs.bytesOf (k : ConnId) : WireObs → Bytes
  | .arrived k' bytes => if k' = k then bytes else []
  | _ => []

/-- A request of connection `k`. -/
def WireObs.requestOf (k : ConnId) : WireObs → Option SessionRequest
  | .request k' r => if k' = k then some r else none
  | _ => none

/-- What the server reports. -/
def Wire.serverLog (log : List WireObs) : List ServerObs := log.filterMap WireObs.server?

/-- The bytes that have arrived at connection `k`. -/
def arrivedAt (k : ConnId) (log : List WireObs) : Bytes := log.flatMap (WireObs.bytesOf k)

/-- The requests that connection `k` has made. -/
def requestsMade (k : ConnId) (log : List WireObs) : List SessionRequest :=
  log.filterMap (WireObs.requestOf k)

/-- The frames that `serve` of connection `k` has read. -/
def framesRead (k : ConnId) (log : List WireObs) : List Frame :=
  (connLog k (Wire.serverLog log)).filterMap ConnObs.read?

section Logs

variable (k : ConnId) (log log' : List WireObs) (os : List ServerObs) (r : Option SessionRequest)

@[simp] theorem Wire.serverLog_append :
    Wire.serverLog (log ++ log') = Wire.serverLog log ++ Wire.serverLog log' :=
  List.filterMap_append

@[simp] theorem arrivedAt_append :
    arrivedAt k (log ++ log') = arrivedAt k log ++ arrivedAt k log' :=
  List.flatMap_append

@[simp] theorem requestsMade_append :
    requestsMade k (log ++ log') = requestsMade k log ++ requestsMade k log' :=
  List.filterMap_append

@[simp] theorem framesRead_append :
    framesRead k (log ++ log') = framesRead k log ++ framesRead k log' := by
  simp [framesRead]

@[simp] theorem Wire.serverLog_map_server : Wire.serverLog (os.map .server) = os := by
  simp [Wire.serverLog, List.filterMap_map, Function.comp_def, WireObs.server?]

@[simp] theorem Wire.serverLog_requests : Wire.serverLog (r.toList.map (.request k)) = [] := by
  cases r <;> rfl

@[simp] theorem arrivedAt_map_server : arrivedAt k (os.map .server) = [] := by
  simp [arrivedAt, List.flatMap_map, WireObs.bytesOf]

@[simp] theorem arrivedAt_requests (k' : ConnId) :
    arrivedAt k (r.toList.map (.request k')) = [] := by
  cases r <;> rfl

@[simp] theorem requestsMade_map_server : requestsMade k (os.map .server) = [] := by
  simp [requestsMade, List.filterMap_map, Function.comp_def, WireObs.requestOf]

@[simp] theorem requestsMade_requests : requestsMade k (r.toList.map (.request k)) = r.toList := by
  cases r <;> simp [requestsMade, WireObs.requestOf]

@[simp] theorem Wire.serverLog_cut : Wire.serverLog [.cut k] = [] := rfl

@[simp] theorem Wire.serverLog_arrived (bytes : Bytes) :
    Wire.serverLog [.arrived k bytes] = [] := rfl

@[simp] theorem arrivedAt_cut (k' : ConnId) : arrivedAt k [.cut k'] = [] := rfl

@[simp] theorem requestsMade_cut (k' : ConnId) : requestsMade k [.cut k'] = [] := rfl

@[simp] theorem requestsMade_arrived (k' : ConnId) (bytes : Bytes) :
    requestsMade k [.arrived k' bytes] = [] := rfl

end Logs

/-! ## The server of a wire -/

section Requests

variable (w : Wire) {k : ConnId}

/-- The request that a step of the connection starts to carry out. -/
theorem Wire.requestObs_self (hc : w.server.connections k = some c) (a : ConnAction) :
    w.requestObs (.conn k a) = (c.request? a).toList.map (.request k) := by
  simp only [Wire.requestObs, hc]

/-- A step of another goroutine makes no request of connection `k`. -/
theorem Wire.requestObs_other (h : ∀ act, a = .conn k act → w.server.connections k = none) :
    ∃ (k' : ConnId) (r : Option SessionRequest), w.requestObs a = r.toList.map (.request k') ∧
      (r ≠ none → k' ≠ k) := by
  unfold Wire.requestObs
  split
  · rename_i k' act
    split
    · rename_i c hc
      refine ⟨k', _, rfl, ?_⟩
      rintro - rfl
      exact nomatch hc.symm.trans (h act rfl)
    · exact ⟨k, none, rfl, fun hne => absurd rfl hne⟩
  · exact ⟨k, none, rfl, fun hne => absurd rfl hne⟩

/-- Requests are reported by the wire and not by the server. -/
theorem Wire.serverLog_requestObs (a : ServerAction) : Wire.serverLog (w.requestObs a) = [] := by
  unfold Wire.requestObs
  split
  · split
    · exact Wire.serverLog_requests _ _
    · rfl
  · rfl

end Requests

/-- A run of the wire is a run of its server. -/
theorem Wire.reach_server {config : Config} {G : Wire → WireAction → Prop} {log : List WireObs}
    {w : Wire} (h : (Wire.lts config).Reach G log w) :
    (Server.lts config).Reach Lts.Always (Wire.serverLog log) w.server := by
  obtain ⟨w₀, rfl, hsteps⟩ := h
  refine ⟨newServer config, rfl, hsteps.project Wire.server WireObs.server? ?_⟩
  intro w a w' os _ hs
  have hone : ∀ (a : ServerAction) {s s' : Server} {os : List ServerObs}, s.step a = some (s', os) →
      (Server.lts config).Steps Lts.Always s os s' := fun a _ _ _ h => .single (a := a) trivial h
  show (Server.lts config).Steps Lts.Always w.server (Wire.serverLog os) w'.server
  cases wire_step_effect hs with
  | server _ hstep =>
    rw [Wire.serverLog_append, Wire.serverLog_map_server, Wire.serverLog_requestObs,
      List.append_nil]
    exact hone _ hstep
  | peerWrite | peerEnd => exact .refl _
  | read _ hsend hserve =>
    rw [Wire.serverLog_map_server]
    exact (hone _ hsend).trans (hone _ hserve)
  | readFails _ hstep =>
    rw [List.append_nil, Wire.serverLog_map_server]
    exact hone _ hstep
  | readClosed _ _ hstep =>
    rw [Wire.serverLog_append, Wire.serverLog_map_server, Wire.serverLog_cut, List.append_nil]
    exact hone _ hstep

/-! ## One connection -/

/-- What a step reports of one connection. -/
structure SessionReport where
  bytes : Bytes
  frames : List Frame
  made : List SessionRequest
  cut : Bool

/-- Nothing. -/
def SessionReport.nothing : SessionReport := ⟨[], [], [], false⟩

def reportOf (k : ConnId) (os : List WireObs) : SessionReport where
  bytes := arrivedAt k os
  frames := framesRead k os
  made := requestsMade k os
  cut := .cut k ∈ os

/-- What a step does to a connection that has no frame in its input, and to its stream. -/
inductive SessionMove (s : Server) (c : Connection) (stream : ByteStream) :
    Connection → ByteStream → SessionReport → Prop
  | other {c' : Connection} : c'.serve = c.serve → SessionMove s c stream c' stream .nothing
  | arrive {bytes : Bytes} : stream.ended = false →
      SessionMove s c stream c { stream with unread := stream.unread ++ bytes }
        ⟨bytes, [], [], false⟩
  | ends : SessionMove s c stream c { stream with ended := true } .nothing
  | move {a : ConnAction} {out : Out} : a ≠ .serveRead → a ≠ .serveReadFails → ConnMove s c a out →
      SessionMove s c stream out.conn stream ⟨[], [], (c.request? a).toList, false⟩
  | connect {frame : Frame} {rest : Bytes} : readFrame stream.unread = .ok (frame, rest) →
      c.serve = .handshake →
      SessionMove s c stream { c with serve := connectNext frame } { stream with unread := rest }
        ⟨[], [frame], [], false⟩
  | read {frame : Frame} {rest : Bytes} : readFrame stream.unread = .ok (frame, rest) →
      c.serve = .reading →
      SessionMove s c stream { c with serve := .handle frame } { stream with unread := rest }
        ⟨[], [frame], [], false⟩
  | fails : c.serve = .handshake ∨ c.serve = .reading → stream.fails = true →
      SessionMove s c stream { c with serve := .abort } stream .nothing
  | closed : c.serve = .handshake ∨ c.serve = .reading → c.netClosed = true →
      SessionMove s c stream { c with serve := .abort } stream ⟨[], [], [], true⟩

theorem reportOf_nil (k : ConnId) : reportOf k [] = .nothing := by
  simp [reportOf, arrivedAt, framesRead, requestsMade, Wire.serverLog, SessionReport.nothing]

section Reports

variable {k : ConnId} (sos : List ServerObs) (r : Option SessionRequest)

/-- The steps of the server report the frames read and the requests. -/
theorem reportOf_requests :
    reportOf k (sos.map .server ++ r.toList.map (.request k)) =
      ⟨[], (connLog k sos).filterMap ConnObs.read?, r.toList, false⟩ := by
  simp [reportOf, framesRead]

theorem reportOf_requests_of_ne (h : r ≠ none → k' ≠ k) :
    reportOf k (sos.map .server ++ r.toList.map (.request k')) =
      ⟨[], (connLog k sos).filterMap ConnObs.read?, [], false⟩ := by
  have hmade : requestsMade k (r.toList.map (.request k')) = [] := by
    cases r with
    | none => rfl
    | some r => simp [requestsMade, WireObs.requestOf, h nofun]
  simp [reportOf, framesRead, hmade]

theorem reportOf_server :
    reportOf k (sos.map .server) = ⟨[], (connLog k sos).filterMap ConnObs.read?, [], false⟩ := by
  simp [reportOf, framesRead]

theorem reportOf_cut :
    reportOf k (sos.map .server ++ [.cut k]) =
      ⟨[], (connLog k sos).filterMap ConnObs.read?, [], true⟩ := by
  simp [reportOf, framesRead]

theorem reportOf_cut_of_ne (h : k' ≠ k) :
    reportOf k (sos.map .server ++ [.cut k']) =
      ⟨[], (connLog k sos).filterMap ConnObs.read?, [], false⟩ := by
  simp [reportOf, framesRead, h.symm]

theorem reportOf_arrived (bytes : Bytes) :
    reportOf k [.arrived k bytes] = ⟨bytes, [], [], false⟩ := by
  simp [reportOf, framesRead, arrivedAt, WireObs.bytesOf]

theorem reportOf_arrived_of_ne (h : k' ≠ k) (bytes : Bytes) :
    reportOf k [.arrived k' bytes] = .nothing := by
  simp [reportOf, framesRead, arrivedAt, WireObs.bytesOf, h, SessionReport.nothing]

end Reports

theorem Wire.setStream_self (w : Wire) (k : ConnId) (stream : ByteStream) :
    (w.setStream k stream).streams k = stream := Function.update_self _ _ _

theorem Wire.setStream_of_ne (w : Wire) {k : ConnId} (stream : ByteStream) (h : k' ≠ k) :
    (w.setStream k' stream).streams k = w.streams k := Function.update_of_ne h.symm _ _

section Session

variable {w w' : Wire} {a : WireAction} {os : List WireObs} {k : ConnId}

/-- A step of the server that is none of `ReadFrame`, seen from one connection. -/
theorem session_server {a : ServerAction} {sos : List ServerObs} (hreads : a.reads = false)
    (hstep : w.server.step a = some (s, sos)) (hc : w.server.connections k = some c)
    (hin : c.input = []) :
    ∃ c', s.connections k = some c' ∧ c'.input = [] ∧ SessionMove w.server c (w.streams k) c'
      (w.streams k) (reportOf k (sos.map .server ++ w.requestObs a)) := by
  obtain ⟨hnone, -⟩ | ⟨c₀, c', hc₀, hc', hch⟩ := (server_step_effect hstep).conn_change k
  · exact nomatch hnone.symm.trans hc
  obtain rfl := Option.some.inj (hc.symm.trans hc₀)
  have hother : (∀ act, a ≠ .conn k act) → connLog k sos = [] →
      reportOf k (sos.map .server ++ w.requestObs a) = .nothing := by
    intro hact hlog
    obtain ⟨k', r, hr, hne⟩ := w.requestObs_other fun act h => absurd h (hact act)
    rw [hr, reportOf_requests_of_ne _ _ hne, hlog]
    rfl
  refine ⟨c', hc', ?_⟩
  generalize hobs : connLog k sos = obs at hch
  cases hch with
  | stay hact => exact ⟨hin, hother hact hobs ▸ .other rfl⟩
  | @move act out hm =>
    -- with an empty input there is nothing that it could have read
    have hread := hm.input
    rw [hin, eq_comm, List.append_eq_nil_iff] at hread
    rw [w.requestObs_self hc, reportOf_requests, hobs, hread.1]
    refine ⟨hread.2, .move ?_ ?_ hm⟩
    · rintro rfl
      cases hreads
    · rintro rfl
      cases hreads
  | peerSend => cases hreads
  | drain | close => exact ⟨hin, hother nofun hobs ▸ .other rfl⟩

/-- A step of the server that concerns another connection. -/
theorem conn_unchanged {a : ServerAction} {sos : List ServerObs}
    (hstep : s.step a = some (s', sos)) (hk : k' ≠ k)
    (ha : (∃ frame, a = .peerSend k' frame) ∨ ∃ act, a = .conn k' act) :
    s'.connections k = s.connections k ∧ connLog k sos = [] := by
  rcases ha with ⟨frame, rfl⟩ | ⟨act, rfl⟩
  · cases server_step_effect hstep with
    | peerSend => exact ⟨Server.setConn_of_ne _ _ hk.symm, rfl⟩
  · cases server_step_effect hstep with
    | conn => exact ⟨Server.setConn_of_ne _ _ hk.symm, connLog_map_conn_of_ne hk _⟩
    | connBus =>
      refine ⟨Server.setConn_of_ne _ _ hk.symm, ?_⟩
      rw [connLog_append, connLog_map_bus, connLog_map_conn_of_ne hk]
      rfl

/-- A step of a connection is one of a connection that is there. -/
theorem conn_present {a : ServerAction} {sos : List ServerObs} (hstep : s.step a = some (s', sos))
    (ha : (∃ frame, a = .peerSend k frame) ∨ ∃ act, a = .conn k act) : s.connections k ≠ none := by
  intro hnone
  rcases ha with ⟨frame, rfl⟩ | ⟨act, rfl⟩
  · cases server_step_effect hstep with
    | peerSend hc => exact nomatch hnone.symm.trans hc
  · cases server_step_effect hstep with
    | conn hc | connBus hc => exact nomatch hnone.symm.trans hc

/-- `serve` reads the one frame in its input. -/
theorem serveRead_change {s₁ : Server} {sos : List ServerObs} (hc : s.connections k = some c)
    (hin : c.input = []) (hsend : s.step (.peerSend k frame) = some (s₁, []))
    (hserve : s₁.step (.conn k .serveRead) = some (s', sos)) :
    connLog k sos = [.read frame] ∧
      ((c.serve = .handshake ∧ s'.connections k = some { c with serve := connectNext frame }) ∨
        (c.serve = .reading ∧ s'.connections k = some { c with serve := .handle frame })) := by
  have hrest : ∀ pc, ({ c with input := [], serve := pc } : Connection) = { c with serve := pc } :=
    fun pc => by rw [← hin]
  cases server_step_effect hsend with
  | @peerSend _ _ c₀ p hc₀ hw =>
    obtain rfl := Option.some.inj (hc.symm.trans hc₀)
    cases server_step_effect hserve with
    | conn hc₁ hm =>
      rw [Server.setConn_self, Option.some.injEq] at hc₁
      subst hc₁
      rw [connLog_map_conn_self, Server.setConn_self]
      cases hm with
      -- what `serve` reads is what has just been put into the input
      | connect _ hpc hinput | read _ hpc hinput =>
        rw [hin] at hinput
        obtain ⟨rfl, rfl⟩ := List.cons.inj hinput
        rw [hrest]
        simp_all
      | serve _ hm | deliver _ hm | graceful _ hm | close _ hm => cases hm
    | connBus _ hm =>
      cases hm with
      | serve _ hm | deliver _ hm | graceful _ hm | close _ hm => cases hm

/-- `serve` leaves a read with an error. -/
theorem serveReadFails_change {sos : List ServerObs} (hc : s.connections k = some c)
    (hstep : s.step (.conn k .serveReadFails) = some (s', sos)) :
    connLog k sos = [] ∧ (c.serve = .handshake ∨ c.serve = .reading) ∧
      s'.connections k = some { c with serve := .abort } := by
  cases server_step_effect hstep with
  | conn hc₁ hm =>
    obtain rfl := Option.some.inj (hc.symm.trans hc₁)
    rw [connLog_map_conn_self, Server.setConn_self]
    cases hm with
    | serve hpc hm =>
      cases hm with
      | handshakeFails => exact ⟨rfl, .inl hpc, rfl⟩
      | readFails => exact ⟨rfl, .inr hpc, rfl⟩
    | deliver _ hm | graceful _ hm | close _ hm => cases hm
  | connBus _ hm =>
    cases hm with
    | serve _ hm | deliver _ hm | graceful _ hm | close _ hm => cases hm

/-- The connection that a step of a peer or of `ReadFrame` is about. -/
def WireAction.target : WireAction → Option ConnId
  | .server _ => none
  | .peerWrite k _ | .peerEnd k | .readFrame k | .readFrameFails k | .readClosed k => some k

/-- Such a step does nothing to another connection. -/
theorem WireEffect.elsewhere (h : WireEffect w a w' os) (ha : a.target = some k') (hk : k' ≠ k) :
    w'.server.connections k = w.server.connections k ∧ w'.streams k = w.streams k ∧
      reportOf k os = .nothing := by
  cases h with
  | server => cases ha
  | peerWrite =>
    cases ha
    exact ⟨rfl, Wire.setStream_of_ne _ _ hk, reportOf_arrived_of_ne hk _⟩
  | peerEnd =>
    cases ha
    exact ⟨rfl, Wire.setStream_of_ne _ _ hk, reportOf_nil k⟩
  | read _ hsend hserve =>
    cases ha
    obtain ⟨hsame, -⟩ := conn_unchanged hsend hk (.inl ⟨_, rfl⟩)
    obtain ⟨hsame', hlog⟩ := conn_unchanged hserve hk (.inr ⟨_, rfl⟩)
    refine ⟨hsame'.trans hsame, Wire.setStream_of_ne _ _ hk, ?_⟩
    rw [reportOf_server, hlog]
    rfl
  | readFails _ hstep =>
    cases ha
    obtain ⟨hsame, hlog⟩ := conn_unchanged hstep hk (.inr ⟨_, rfl⟩)
    refine ⟨hsame, rfl, ?_⟩
    rw [List.append_nil, reportOf_server, hlog]
    rfl
  | readClosed _ _ hstep =>
    cases ha
    obtain ⟨hsame, hlog⟩ := conn_unchanged hstep hk (.inr ⟨_, rfl⟩)
    refine ⟨hsame, rfl, ?_⟩
    rw [reportOf_cut_of_ne _ hk, hlog]
    rfl

/-- A step, seen from one connection. -/
theorem WireEffect.session (h : WireEffect w a w' os) (hc : w.server.connections k = some c)
    (hin : c.input = []) :
    ∃ c', w'.server.connections k = some c' ∧ c'.input = [] ∧
      SessionMove w.server c (w.streams k) c' (w'.streams k) (reportOf k os) := by
  by_cases hother : ∃ k', a.target = some k' ∧ k' ≠ k
  · obtain ⟨k', ha, hk⟩ := hother
    obtain ⟨hsame, hstream, hreport⟩ := h.elsewhere ha hk
    rw [hstream, hreport]
    exact ⟨c, hsame.trans hc, hin, .other rfl⟩
  -- the step is one of the server, or about this connection
  have hown : ∀ {k'}, a.target = some k' → k' = k := fun ha =>
    by_contra fun hk => hother ⟨_, ha, hk⟩
  cases h with
  | server hreads hstep => exact session_server hreads hstep hc hin
  | peerWrite hopen =>
    obtain rfl := hown rfl
    refine ⟨c, hc, hin, ?_⟩
    rw [Wire.setStream_self, reportOf_arrived]
    exact .arrive hopen
  | peerEnd =>
    obtain rfl := hown rfl
    refine ⟨c, hc, hin, ?_⟩
    rw [Wire.setStream_self, reportOf_nil]
    exact .ends
  | read hread hsend hserve =>
    obtain rfl := hown rfl
    obtain ⟨hlog, ⟨hpc, hc'⟩ | ⟨hpc, hc'⟩⟩ := serveRead_change hc hin hsend hserve
    · refine ⟨_, hc', hin, ?_⟩
      rw [Wire.setStream_self, reportOf_server, hlog]
      exact .connect hread hpc
    · refine ⟨_, hc', hin, ?_⟩
      rw [Wire.setStream_self, reportOf_server, hlog]
      exact .read hread hpc
  | readFails hfails hstep =>
    obtain rfl := hown rfl
    obtain ⟨hlog, hpc, hc'⟩ := serveReadFails_change hc hstep
    refine ⟨_, hc', hin, ?_⟩
    rw [List.append_nil, reportOf_server, hlog]
    exact .fails hpc hfails
  | readClosed hc₀ hclosed hstep =>
    obtain rfl := hown rfl
    obtain rfl := Option.some.inj (hc.symm.trans hc₀)
    obtain ⟨hlog, hpc, hc'⟩ := serveReadFails_change hc hstep
    refine ⟨_, hc', hin, ?_⟩
    rw [reportOf_cut, hlog]
    exact .closed hpc hclosed

/-- A step before the connection is accepted: bytes may arrive. -/
theorem WireEffect.absent (h : WireEffect w a w' os) (hc : w.server.connections k = none) :
    (w'.server.connections k = none ∨ w'.server.connections k = some newConnection) ∧
      ∃ bytes, (w'.streams k).unread = (w.streams k).unread ++ bytes ∧
        reportOf k os = ⟨bytes, [], [], false⟩ := by
  have hnil : (w.streams k).unread = (w.streams k).unread ++ [] := (List.append_nil _).symm
  by_cases hother : ∃ k', a.target = some k' ∧ k' ≠ k
  · obtain ⟨k', ha, hk⟩ := hother
    obtain ⟨hsame, hstream, hreport⟩ := h.elsewhere ha hk
    rw [hstream]
    exact ⟨.inl (hsame.trans hc), [], hnil, hreport⟩
  have hown : ∀ {k'}, a.target = some k' → k' = k := fun ha =>
    by_contra fun hk => hother ⟨_, ha, hk⟩
  cases h with
  | server hreads hstep =>
    obtain ⟨-, hlog, hc'⟩ | ⟨c, c', hsome, -⟩ := (server_step_effect hstep).conn_change k
    · refine ⟨hc', [], hnil, ?_⟩
      obtain ⟨k', r, hr, hne⟩ := w.requestObs_other fun _ _ => hc
      rw [hr, reportOf_requests_of_ne _ _ hne, hlog]
      rfl
    · exact nomatch hc.symm.trans hsome
  | peerWrite =>
    obtain rfl := hown rfl
    rw [Wire.setStream_self, reportOf_arrived]
    exact ⟨.inl hc, _, rfl, rfl⟩
  | peerEnd =>
    obtain rfl := hown rfl
    rw [Wire.setStream_self, reportOf_nil]
    exact ⟨.inl hc, [], hnil, rfl⟩
  | read _ hsend =>
    obtain rfl := hown rfl
    exact absurd hc (conn_present hsend (.inl ⟨_, rfl⟩))
  | readFails _ hstep | readClosed _ _ hstep =>
    obtain rfl := hown rfl
    exact absurd hc (conn_present hstep (.inr ⟨_, rfl⟩))

end Session

/-! ## Runs, seen from one connection -/

def SessionReport.append (r r' : SessionReport) : SessionReport :=
  ⟨r.bytes ++ r'.bytes, r.frames ++ r'.frames, r.made ++ r'.made, r.cut || r'.cut⟩

/-- Reports of successive runs are put together field by field. -/
theorem reportOf_append (k : ConnId) (log log' : List WireObs) :
    reportOf k (log ++ log') = (reportOf k log).append (reportOf k log') := by
  simp [reportOf, SessionReport.append]

section Runs

variable {config : Config} {G : Wire → WireAction → Prop} {log : List WireObs} {w : Wire}
  {k : ConnId}

/-- The induction of `Wire.session_induct`, with the facts about absent connections it needs on
    the way. -/
private theorem session_induct_aux {I : SessionReport → Server → Connection → ByteStream → Prop}
    (h : (Wire.lts config).Reach G log w)
    (hnew : ∀ s stream, I ⟨stream.unread, [], [], false⟩ s newConnection stream)
    (hstep : ∀ log w a w' os c c', (Wire.lts config).Reach G log w →
      w.server.connections k = some c → (Wire.lts config).step w a = some (w', os) →
      SessionMove w.server c (w.streams k) c' (w'.streams k) (reportOf k os) →
      I (reportOf k log) w.server c (w.streams k) →
      I ((reportOf k log).append (reportOf k os)) w'.server c' (w'.streams k)) :
    (w.server.connections k = none → reportOf k log = ⟨(w.streams k).unread, [], [], false⟩) ∧
      ∀ c, w.server.connections k = some c →
        c.input = [] ∧ I (reportOf k log) w.server c (w.streams k) := by
  refine h.induct_reach (P := fun log w =>
    (w.server.connections k = none → reportOf k log = ⟨(w.streams k).unread, [], [], false⟩) ∧
      ∀ c, w.server.connections k = some c →
        c.input = [] ∧ I (reportOf k log) w.server c (w.streams k)) ?_ ?_
  · rintro _ rfl
    exact ⟨fun _ => reportOf_nil k, fun _ hc => nomatch hc⟩
  · intro log w a w' os hr hinv _ hs
    have heff := wire_step_effect hs
    rw [reportOf_append]
    cases hc : w.server.connections k with
    | none =>
      -- what has arrived is unread, also when the connection is accepted now
      obtain ⟨hc', bytes, hbytes, hreport⟩ := heff.absent hc
      have hunread : (reportOf k log).append (reportOf k os) =
          ⟨(w'.streams k).unread, [], [], false⟩ := by
        rw [hinv.1 hc, hreport, hbytes]
        rfl
      refine ⟨fun _ => hunread, fun c₁ hc₁ => ?_⟩
      rcases hc' with hnone | hsome
      · exact nomatch hnone.symm.trans hc₁
      · obtain rfl := Option.some.inj (hsome.symm.trans hc₁)
        rw [hunread]
        exact ⟨rfl, hnew _ _⟩
    | some c =>
      obtain ⟨hin, hI⟩ := hinv.2 c hc
      obtain ⟨c', hc', hin', hm⟩ := heff.session hc hin
      refine ⟨fun hnone => absurd (hnone.symm.trans hc') nofun, fun c₁ hc₁ => ?_⟩
      obtain rfl := Option.some.inj (hc'.symm.trans hc₁)
      exact ⟨hin', hstep log w a w' os c c' hr hc hs hm hI⟩

/-- A connection that is not there has read none of its bytes. -/
theorem reportOf_absent (h : (Wire.lts config).Reach G log w)
    (hc : w.server.connections k = none) :
    reportOf k log = ⟨(w.streams k).unread, [], [], false⟩ :=
  (session_induct_aux (I := fun _ _ _ _ => True) h (fun _ _ => trivial)
    fun _ _ _ _ _ _ _ _ _ _ _ _ => trivial).1 hc

/-- The frames of a connection are in its stream, and not in its input. -/
theorem input_nil (h : (Wire.lts config).Reach G log w) (hc : w.server.connections k = some c) :
    c.input = [] :=
  ((session_induct_aux (I := fun _ _ _ _ => True) h (fun _ _ => trivial)
    fun _ _ _ _ _ _ _ _ _ _ _ _ => trivial).2 c hc).1

/-- The invariant rule for a connection: what holds when it is accepted and is kept by every move
    holds. -/
theorem Wire.session_induct {I : SessionReport → Server → Connection → ByteStream → Prop}
    (h : (Wire.lts config).Reach G log w) (hc : w.server.connections k = some c)
    (hnew : ∀ s stream, I ⟨stream.unread, [], [], false⟩ s newConnection stream)
    (hstep : ∀ log w a w' os c c', (Wire.lts config).Reach G log w →
      w.server.connections k = some c → (Wire.lts config).step w a = some (w', os) →
      SessionMove w.server c (w.streams k) c' (w'.streams k) (reportOf k os) →
      I (reportOf k log) w.server c (w.streams k) →
      I ((reportOf k log).append (reportOf k os)) w'.server c' (w'.streams k)) :
    I (reportOf k log) w.server c (w.streams k) :=
  ((session_induct_aux h hnew hstep).2 c hc).2

/-- The bytes that have arrived are those of the frames read, and the unread ones. -/
theorem stream_inv (h : (Wire.lts config).Reach G log w) (k : ConnId) :
    ∃ p, Exact.Framed writeFrame (framesRead k log) p ∧
      arrivedAt k log = p ++ (w.streams k).unread := by
  cases hc : w.server.connections k with
  | none =>
    have hreport := reportOf_absent h hc
    refine ⟨[], ?_, congrArg SessionReport.bytes hreport⟩
    rw [show framesRead k log = [] from congrArg SessionReport.frames hreport]
    exact .nil
  | some c =>
    refine Wire.session_induct h hc (I := fun r _ _ stream =>
      ∃ p, Exact.Framed writeFrame r.frames p ∧ r.bytes = p ++ stream.unread) ?_ ?_
    · exact fun _ _ => ⟨[], .nil, rfl⟩
    · intro log w a w' os c c' _ _ _ hm ⟨p, hframed, hbytes⟩
      generalize reportOf k log = r at hframed hbytes ⊢
      generalize reportOf k os = r' at hm ⊢
      generalize w'.streams k = stream' at hm ⊢
      cases hm with
      | arrive =>
        refine ⟨p, ?_, ?_⟩
        · simpa [SessionReport.append] using hframed
        · simp [SessionReport.append, hbytes]
      | connect hread | read hread =>
        -- the bytes of the frame move from the unread ones to those read
        obtain ⟨q, hq, heq⟩ := (readFrame_ok_iff _ _ _).mp hread
        refine ⟨p ++ q, hframed.concat hq, ?_⟩
        simp [SessionReport.append, hbytes, heq]
      | _ =>
        refine ⟨p, ?_, ?_⟩
        · simpa [SessionReport.append, SessionReport.nothing] using hframed
        · simp [SessionReport.append, SessionReport.nothing, hbytes]

end Runs

end EventBus
