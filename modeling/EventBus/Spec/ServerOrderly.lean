import EventBus.Spec.ClientRequests
import EventBus.Spec.ServerPublish
import EventBus.Spec.ServerShutdown

/-!
# A connection that is closed in order

A connection writes an ERROR frame, or closes its socket without a SHUTDOWN frame, only if a
read or a write fails, a request is refused or not well formed, the context of
`GracefulShutdown` ends, or `Close` is called. Where none of this happens the connection
serves its client until `gracefulClose` has written the SHUTDOWN frame.

## Key results

- `ConnMove.serves`: `serve` reports no error
- `ConnMove.inOrder`: `gracefulClose` closes the socket after it has written its frame
- `Connection.Orderly.change`: a step of the server keeps a connection in order
-/

namespace EventBus

/-! ## Requests that are served -/

/-- `serve` is past its handshake, will not return, and has no error to report. -/
def ServePc.Orderly : ServePc → Prop
  | .handshake | .abort | .closing | .finished => False
  | .handle frame => RequestFrame frame
  | .isDraining (.publish payload) | .isDrainingConn (.publish payload) _ =>
    ∃ message, decodePublish payload = .ok message ∧ message.topic ≠ []
  | .publishCall message | .publishWait message _ => ∃ payload, decodePublish payload = .ok message
  | .subscribeUnlock err => err = none
  | .send frame after => frame.type ≠ typeError ∧ after ≠ .quit
  | _ => True

/-- The step stands for a read or a write of `serve` or `gracefulClose` that fails. -/
def ConnAction.tcpFails : ConnAction → Bool
  | .serveReadFails | .serveSendFails _ | .gracefulSendFails => true
  | _ => false

/-- The step is one at which `isDraining` tells `serve` to refuse a request. -/
def Connection.refuses (c : Connection) : ConnAction → Bool
  | .isDrainingConn =>
    match c.serve with
    | .isDrainingConn _ serverDraining => c.draining || serverDraining
    | _ => false
  | _ => false

/-- A SUBSCRIBE request names a topic. -/
theorem RequestFrame.subscribeNext {frame : Frame} (h : RequestFrame frame)
    (htype : frame.type = typeSubscribe) :
    ∃ topic, EventBus.subscribeNext frame.payload = .subscribeLock topic := by
  cases h with
  | @subscribe topic payload henc hne =>
    refine ⟨topic, ?_⟩
    simp [EventBus.subscribeNext, (decodeTopic_ok_iff _ _).mpr henc, hne]
  | unsubscribe => exact absurd htype (by decide : typeUnsubscribe ≠ typeSubscribe)
  | ack => exact absurd htype (by decide : typeAck ≠ typeSubscribe)
  | publish => exact absurd htype (by decide : typePublish ≠ typeSubscribe)
  | ping => exact absurd htype (by decide)

/-- A PUBLISH request decodes, and names a topic. -/
theorem RequestFrame.decodePublish {frame : Frame} (h : RequestFrame frame)
    (htype : frame.type = typePublish) :
    ∃ message, EventBus.decodePublish frame.payload = .ok message ∧ message.topic ≠ [] := by
  cases h with
  | @publish event payload henc hne =>
    exact ⟨event.message, (decodePublish_ok_iff _ _).mpr henc, hne⟩
  | subscribe => exact absurd htype (by decide : typeSubscribe ≠ typePublish)
  | unsubscribe => exact absurd htype (by decide : typeUnsubscribe ≠ typePublish)
  | ack => exact absurd htype (by decide : typeAck ≠ typePublish)
  | ping => exact absurd htype (by decide)

/-- An ACK decodes. -/
theorem RequestFrame.decodeAck {frame : Frame} (h : RequestFrame frame)
    (htype : frame.type = typeAck) : ∃ ack, EventBus.decodeAck frame.payload = .ok ack := by
  cases h with
  | @ack ack payload henc => exact ⟨ack, (decodeAck_ok_iff _ _).mpr henc⟩
  | subscribe => exact absurd htype (by decide : typeSubscribe ≠ typeAck)
  | unsubscribe => exact absurd htype (by decide : typeUnsubscribe ≠ typeAck)
  | publish => exact absurd htype (by decide : typePublish ≠ typeAck)
  | ping => exact absurd htype (by decide)

section Orderly

variable {s s' : Server} {c : Connection} {a : ConnAction} {out : Out} {L : List ConnObs}

/-- `serve` reports no error, if no request is refused and no read or write fails. -/
theorem ServeMove.orderly {pc pc' : ServePc} {bus : Option Action} {obs : List ConnObs}
    (h : ServeMove s c a pc pc' bus obs) (hpc : c.serve = pc) (horderly : pc.Orderly)
    (hfails : a.tcpFails = false) (hrefuses : c.refuses a = false)
    (hunfailed : ∀ topic call err, pc = .subscribeWait topic call →
      s.bus.calls call ≠ some (.returned (.failed err))) : pc'.Orderly := by
  cases h with
  | handshakeFails | abortDraining | closed => exact horderly.elim
  | readFails | sendReport | sendIgnore => cases hfails
  | subscribe htype =>
    obtain ⟨topic, heq⟩ := RequestFrame.subscribeNext horderly htype
    rw [heq]
    trivial
  | publish htype => exact RequestFrame.decodePublish horderly htype
  | ackInvalid htype hdec =>
    obtain ⟨ack, hok⟩ := RequestFrame.decodeAck horderly htype
    rw [hok] at hdec
    cases hdec
  | ping => exact ⟨(by decide : typePong ≠ typeError), nofun⟩
  | unsupported hsub hpub hack hping hunsub =>
    cases horderly with
    | subscribe => exact absurd rfl hsub
    | unsubscribe => exact absurd rfl hunsub
    | ack => exact absurd rfl hack
    | publish => exact absurd rfl hpub
    | ping => exact absurd rfl hping
  | @isDraining request => cases request <;> exact horderly
  | subscribeDraining hd | publishDraining hd =>
    simp only [Connection.refuses, hpc] at hrefuses
    rw [hd] at hrefuses
    cases hrefuses
  | publishAllowed =>
    obtain ⟨message, hdec, htopic⟩ := horderly
    unfold publishNext
    rw [hdec]
    simp only [htopic, if_false]
    exact ⟨_, hdec⟩
  | subscribeFailed hret => exact absurd hret (hunfailed _ _ _ rfl)
  | subscribeError => cases horderly
  | publishCall => exact horderly
  | @publishReturn message call r =>
    obtain ⟨p, hdec⟩ := horderly
    obtain ⟨payload, henc⟩ := encodeAck_publishAck hdec r
    unfold publishReply
    rw [henc]
    exact ⟨(by decide : typeAck ≠ typeError), nofun⟩
  | @send frame after =>
    cases after with
    | quit => exact absurd rfl horderly.2
    | _ => trivial
  | _ => trivial

/-- `serve` answers requests, and has written no ERROR frame. -/
structure Connection.Serves (L : List ConnObs) (c : Connection) : Prop where
  serve : c.netClosed = false →
    (c.serve = .handshake ∧ L.filterMap ConnObs.read? = []) ∨
      (c.serve.Orderly ∧ L.filterMap ConnObs.read? ≠ [])
  written : ∀ frame, .wrote .serve frame ∈ L → frame.type ≠ typeError

/-- The next frame of the input is the CONNECT frame or a request. -/
def Connection.NextInOrder (L : List ConnObs) (c : Connection) : Prop :=
  ∀ frame rest, c.input = frame :: rest →
    (L.filterMap ConnObs.read? = [] → connectNext frame = .reading) ∧
      (L.filterMap ConnObs.read? ≠ [] → RequestFrame frame)

/-- A TCP connection that is open was open before. -/
theorem ConnMove.netClosed_mono (h : ConnMove s c a out) (hopen : out.conn.netClosed = false) :
    c.netClosed = false := by
  cases h with
  | gracefulNet | closeNet => cases hopen
  | _ => exact hopen

/-- A frame is written on an open socket. -/
theorem ConnMove.wrote_open {writer : Writer} {frame : Frame} (h : ConnMove s c a out)
    (ho : .wrote writer frame ∈ out.obs) : c.netClosed = false := by
  have hopen : ∀ {frame}, c.writable frame = true → c.netClosed = false := by
    intro frame hw
    unfold Connection.writable at hw
    simp only [Bool.and_eq_true, Bool.not_eq_true'] at hw
    exact hw.1
  cases h with
  | serve _ hm =>
    cases hm with
    | send hw => exact hopen hw
    | _ => simp at ho
  | graceful _ hm =>
    cases hm with
    | send _ hw => exact hopen hw
    | _ => simp at ho
  | deliver _ hm =>
    cases hm with
    | send hw => exact hopen hw
    | _ => simp at ho
  | _ => simp at ho

/-- `serve` goes on serving while the peer keeps to the protocol and nothing fails. -/
theorem ConnMove.serves (h : ConnMove s c a out) (hserves : c.Serves L) (hnext : c.NextInOrder L)
    (hfails : a.tcpFails = true → c.netClosed = true) (hrefuses : c.refuses a = false)
    (hunfailed : ∀ topic call err, c.serve = .subscribeWait topic call →
      s.bus.calls call ≠ some (.returned (.failed err))) : out.conn.Serves (L ++ out.obs) where
  serve hopen' := by
    have hopen := h.netClosed_mono hopen'
    have hnofail : a.tcpFails = false := by
      cases hf : a.tcpFails with
      | true => rw [← hfails hf, hopen]
      | false => rfl
    have hbefore := hserves.serve hopen
    -- a step that leaves the input has read no frame
    have hquiet : out.conn.input = c.input → out.obs.filterMap ConnObs.read? = [] := fun heq =>
      List.self_eq_append_left.mp (heq ▸ h.input)
    rw [List.filterMap_append]
    cases h with
    | serve hpc hm =>
      rw [hquiet rfl, List.append_nil]
      rcases hbefore with ⟨hhs, -⟩ | ⟨horderly, hread⟩
      · rw [hhs] at hpc
        subst hpc
        cases hm
        cases hnofail
      · subst hpc
        exact .inr ⟨hm.orderly rfl horderly hnofail hrefuses hunfailed, hread⟩
    | connect _ hpc hin =>
      rcases hbefore with ⟨-, hnil⟩ | ⟨horderly, -⟩
      · -- the first frame is the CONNECT
        refine .inr ⟨?_, by simp [ConnObs.read?]⟩
        show (connectNext _).Orderly
        rw [(hnext _ _ hin).1 hnil]
        trivial
      · rw [hpc] at horderly
        exact horderly.elim
    | read _ hpc hin =>
      rcases hbefore with ⟨hhs, -⟩ | ⟨-, hread⟩
      · exact nomatch hpc.symm.trans hhs
      · exact .inr ⟨(hnext _ _ hin).2 hread, by simp [ConnObs.read?]⟩
    | store hpc | replaced hpc | spawn hpc | acknowledge hpc | unsubscribe hpc | abort hpc =>
      rw [hquiet rfl, List.append_nil]
      rcases hbefore with ⟨hhs, -⟩ | ⟨horderly, hread⟩
      · exact nomatch hpc.symm.trans hhs
      · rw [hpc] at horderly
        exact .inr ⟨by trivial, hread⟩
    | _ =>
      rw [hquiet rfl, List.append_nil]
      exact hbefore
  written frame ho := by
    rcases List.mem_append.mp ho with hold | hnew
    · exact hserves.written frame hold
    rcases h.wrote hnew with ⟨-, after, hpc⟩ | ⟨hw, -⟩ | ⟨_, _, hw⟩
    · rcases hserves.serve (h.wrote_open hnew) with ⟨hhs, -⟩ | ⟨horderly, -⟩
      · exact nomatch hpc.symm.trans hhs
      · rw [hpc] at horderly
        exact horderly.1
    · cases hw
    · cases hw

end Orderly

/-! ## gracefulClose in order -/

/-- What `gracefulClose` has done: it has set `c.draining` (1), written the SHUTDOWN frame (2),
    set `c.closed` (3) and closed the socket (4), or it has given up (5). -/
def GracefulPc.stage : GracefulPc → Nat
  | .idle | .start => 0
  | .drain _ | .drainWait .. | .wait | .unlock | .shutdown => 1
  | .closeTransport => 2
  | .closeNet => 3
  | .finished => 4
  | .closing => 5

/-- The connection is closed by `gracefulClose` and by nobody else. -/
structure Connection.InOrder (L : List ConnObs) (c : Connection) : Prop where
  stage : c.graceful.stage ≤ 4
  draining : 1 ≤ c.graceful.stage → c.draining = true
  told : 2 ≤ c.graceful.stage → ∃ frame, .wrote .graceful frame ∈ L
  closed : c.closed = decide (3 ≤ c.graceful.stage)
  netClosed : c.netClosed = decide (4 ≤ c.graceful.stage)
  closing : ∀ closer, c.closing closer = .idle

section InOrder

variable {s : Server} {c c' : Connection} {a : ConnAction} {out : Out} {L obs : List ConnObs}

/-- A step after which `gracefulClose` has done as much as before. -/
theorem Connection.InOrder.same (h : c.InOrder L) (hstage : c'.graceful.stage = c.graceful.stage)
    (hdraining : c.draining = true → c'.draining = true) (hclosed : c'.closed = c.closed)
    (hnet : c'.netClosed = c.netClosed) (hclosing : c'.closing = c.closing) :
    c'.InOrder (L ++ obs) := by
  constructor <;> try rw [hstage]
  · exact h.stage
  · exact fun hle => hdraining (h.draining hle)
  · intro hle
    obtain ⟨frame, ho⟩ := h.told hle
    exact ⟨frame, List.mem_append_left _ ho⟩
  · exact hclosed.trans h.closed
  · exact hnet.trans h.netClosed
  · rw [hclosing]
    exact h.closing

/-- `gracefulClose` goes through its stages in order. -/
theorem ConnMove.inOrder (h : ConnMove s c a out) (horder : c.InOrder L) (hserves : c.Serves L)
    (hredirect : s.redirect.length ≤ maxStringSize)
    (hfails : a.tcpFails = true → c.netClosed = true)
    (hunfailed : ∀ sub call todo err, c.graceful = .drainWait sub call todo →
      s.bus.calls call ≠ some (.returned (.failed err))) : out.conn.InOrder (L ++ out.obs) := by
  cases h with
  | graceful hpc hm =>
    subst hpc
    generalize hg : c.graceful = pc at hm
    cases hm with
    | already _ hclosed =>
      rw [horder.closed, hg] at hclosed
      cases hclosed
    | drain | drained | lock | wait | unlock =>
      exact horder.same (by rw [hg]; rfl) id rfl rfl rfl
    | tooLong henc =>
      unfold encodeShutdown encodeTopic writeString at henc
      rw [if_neg (by dsimp only; omega)] at henc
      cases henc
    | send =>
      refine ⟨(by decide : 2 ≤ 4), fun _ => horder.draining (by rw [hg]; decide),
        fun _ => ⟨_, List.mem_append_right _ List.mem_cons_self⟩, ?_, ?_, horder.closing⟩
      · rw [horder.closed, hg]
        rfl
      · rw [horder.netClosed, hg]
        rfl
    | sendFails =>
      have hnet := hfails rfl
      rw [horder.netClosed, hg] at hnet
      cases hnet
    | closed =>
      have hstage := horder.stage
      rw [hg] at hstage
      exact absurd hstage (by decide)
  | gracefulStart hpc =>
    have hclosed := horder.closed
    have hnet := horder.netClosed
    rw [hpc] at hclosed hnet
    exact ⟨(by decide : 1 ≤ 4), fun _ => rfl, fun hle => absurd hle (by decide : ¬2 ≤ 1), hclosed,
      hnet, horder.closing⟩
  | drainFailed hpc hret => exact absurd hret (hunfailed _ _ _ _ hpc)
  | closeTransport hpc =>
    have hnet := horder.netClosed
    have hdraining := horder.draining
    have htold := horder.told
    rw [hpc] at hnet hdraining htold
    obtain ⟨frame, ho⟩ := htold (by decide)
    exact ⟨(by decide : 3 ≤ 4), fun _ => hdraining (by decide),
      fun _ => ⟨frame, List.mem_append_left _ ho⟩, rfl, hnet, horder.closing⟩
  | gracefulNet hpc =>
    have hclosed := horder.closed
    have hdraining := horder.draining
    have htold := horder.told
    rw [hpc] at hclosed hdraining htold
    obtain ⟨frame, ho⟩ := htold (by decide)
    exact ⟨(by decide : 4 ≤ 4), fun _ => hdraining (by decide),
      fun _ => ⟨frame, List.mem_append_left _ ho⟩, hclosed, rfl, horder.closing⟩
  | abort hpc hd =>
    -- `serve` returns after the socket has been closed, which `gracefulClose` has done
    cases hnet : c.netClosed with
    | false =>
      rcases hserves.serve hnet with ⟨hhs, -⟩ | ⟨horderly, -⟩
      · exact nomatch hpc.symm.trans hhs
      · rw [hpc] at horderly
        exact horderly.elim
    | true =>
      have hstage := of_decide_eq_true (horder.netClosed.symm.trans hnet)
      rw [horder.draining (by omega)] at hd
      cases hd
  | @close _ closer _ _ _ hpc hm =>
    rw [horder.closing closer] at hpc
    subst hpc
    cases hm
  | @closeStart closer _ hpc | @closeNet closer hpc =>
    rw [horder.closing closer] at hpc
    cases hpc
  | _ => exact horder.same rfl id rfl rfl rfl

end InOrder

/-! ## Calls that do not fail -/

/-- Call `call` has not returned an error. -/
def Bus.Unfailed (w : Bus) (call : CallId) : Prop :=
  ∀ err, w.calls call ≠ some (.returned (.failed err))

/-- A call that is made in this step has not failed yet. -/
theorem Bus.unfailed_invoke {w w' : Bus} {call : CallId} {op : Op} {os : List Obs}
    (h : w.step (.invoke call op) = some (w', os)) : w'.Unfailed call := by
  obtain ⟨-, hcalls, -⟩ := Bus.step_invoke h
  intro err hret
  rw [hcalls, Function.update_self, Option.some.injEq] at hret
  exact Op.start_ne_returned op _ hret

section Unfailed

variable {s s' : Server} {a : ServerAction} {os : List ServerObs} {call : CallId}

/-- `Subscribe` fails only on a broker that is closed or draining. -/
theorem ServerEffect.subscribe_unfailed {topic : Bytes} (h : ServerEffect s a s' os)
    (hruns : s.bus.Runs call (.subscribe topic)) (hun : s.bus.Unfailed call)
    (hopen : a = .bus (.subscribe call) →
      s.bus.broker.closed = false ∧ s.bus.broker.draining = false) : s'.bus.Unfailed call := by
  intro err hret
  obtain ⟨b, hb, hact⟩ := h.bus_action
  cases b with
  | none => exact hun err (hb.1 ▸ hret)
  | some b =>
    rcases (step_effect hb).subscribe_failed hruns hret with hold | ⟨rfl, hrefused⟩
    · exact hun err hold
    rcases hact _ rfl with rfl | ⟨_, _, heq⟩ | ⟨_, heq⟩
    · obtain ⟨hclosed, hdraining⟩ := hopen rfl
      rw [hclosed, hdraining] at hrefused
      exact hrefused.elim nofun nofun
    · cases heq
    · cases heq

/-- `Drain` fails only through its context. -/
theorem ServerEffect.drain_unfailed {ctx : Ctx} {sub : SubPtr} (h : ServerEffect s a s' os)
    (hruns : s.bus.Runs call (.drain ctx sub)) (hun : s.bus.Unfailed call)
    (hctx : a ≠ .bus (.drainCtx call)) : s'.bus.Unfailed call := by
  intro err hret
  obtain ⟨b, hb, hact⟩ := h.bus_action
  cases b with
  | none => exact hun err (hb.1 ▸ hret)
  | some b =>
    rcases (step_effect hb).drain_failed hruns hret with hold | rfl
    · exact hun err hold
    rcases hact _ rfl with heq | ⟨_, _, heq⟩ | ⟨_, heq⟩
    · exact hctx heq
    · cases heq
    · cases heq

end Unfailed

/-- No call of the broker that the connection waits for, and whose error it would report or
    close the connection for, has failed. -/
structure Connection.Unfailed (w : Bus) (c : Connection) : Prop where
  subscribe : ∀ topic call, c.serve.call = some (call, .subscribe topic) → w.Unfailed call
  drain : ∀ sub call todo, c.graceful = .drainWait sub call todo → w.Unfailed call

section Change

variable {s s' : Server} {a : ServerAction} {os : List ServerObs} {bos : List Obs} {k : ConnId}
  {c c' : Connection} {obs L : List ConnObs}

/-- The calls that the connection waits for have not failed. -/
theorem ConnChange.unfailed (h : ConnChange s s' bos k c a c' obs) (heff : ServerEffect s a s' os)
    (hcalls : c.CallsInv s.bus) (hun : c.Unfailed s.bus)
    (hopen : ∀ topic call, c.serve.call = some (call, .subscribe topic) →
      a = .bus (.subscribe call) → s.bus.broker.closed = false ∧ s.bus.broker.draining = false)
    (hctx : ∀ sub call todo, c.graceful = .drainWait sub call todo → a ≠ .bus (.drainCtx call)) :
    c'.Unfailed s'.bus := by
  -- a call that the connection waited for before has not failed in this step
  have hsub : ∀ topic call, c.serve.call = some (call, .subscribe topic) →
      s'.bus.Unfailed call := fun topic call hcall =>
    heff.subscribe_unfailed (hcalls.serve call _ hcall) (hun.subscribe topic call hcall)
      (hopen topic call hcall)
  have hdrain : ∀ sub call todo, c.graceful = .drainWait sub call todo →
      s'.bus.Unfailed call := by
    intro sub call todo hpc
    obtain ⟨ctx, hruns⟩ := hcalls.graceful sub call todo hpc
    exact heff.drain_unfailed hruns (hun.drain sub call todo hpc) (hctx sub call todo hpc)
  cases h with
  | @move act out hm hbus =>
    constructor
    · intro topic call hcall
      rcases hm.serveCall hcall with hold | hnew
      · exact hsub topic call hold
      · rw [hnew] at hbus
        exact Bus.unfailed_invoke hbus
    · intro sub call todo hpc
      rcases hm.gracefulCall hpc with hold | ⟨ctx, hnew⟩
      · exact hdrain sub call todo hold
      · rw [hnew] at hbus
        exact Bus.unfailed_invoke hbus
  | drain => exact ⟨hsub, nofun⟩
  | _ => exact ⟨hsub, hdrain⟩

/-- The connection serves its client, and only `gracefulClose` closes it. -/
structure Connection.Orderly (L : List ConnObs) (w : Bus) (c : Connection) : Prop where
  serves : c.Serves L
  inOrder : c.InOrder L
  unfailed : c.Unfailed w

theorem orderly_new (w : Bus) : newConnection.Orderly [] w where
  serves := ⟨fun _ => .inl ⟨rfl, rfl⟩, nofun⟩
  inOrder := ⟨by decide, fun h => absurd h (by decide), fun h => absurd h (by decide), rfl, rfl,
    fun _ => rfl⟩
  unfailed := ⟨nofun, nofun⟩

/-- A connection stays orderly as long as its client sends requests in order, no read or write
    fails, no request is refused, the context of `GracefulShutdown` does not end and `Close` is
    not called. -/
theorem Connection.Orderly.change (h : c.Orderly L s.bus) (hch : ConnChange s s' bos k c a c' obs)
    (heff : ServerEffect s a s' os) (hcalls : c.CallsInv s.bus)
    (hidle : k ∈ s.ctl.pending → c.graceful = .idle)
    (hredirect : s.redirect.length ≤ maxStringSize) (hnext : c.NextInOrder L)
    (hfails : ∀ act, a = .conn k act → act.tcpFails = true → c.netClosed = true)
    (hrefuses : ∀ act, a = .conn k act → c.refuses act = false)
    (hopen : ∀ topic call, c.serve.call = some (call, .subscribe topic) →
      a = .bus (.subscribe call) → s.bus.broker.closed = false ∧ s.bus.broker.draining = false)
    (hctx : ∀ sub call todo, c.graceful = .drainWait sub call todo → a ≠ .bus (.drainCtx call))
    (hclose : a ≠ .closeConn) : c'.Orderly (L ++ obs) s'.bus := by
  have hun := hch.unfailed heff hcalls h.unfailed hopen hctx
  cases hch with
  | move hm =>
    refine ⟨hm.serves h.serves hnext (hfails _ rfl) (hrefuses _ rfl) ?_,
      hm.inOrder h.inOrder h.serves hredirect (hfails _ rfl) ?_, hun⟩
    · intro topic call err hpc
      exact h.unfailed.subscribe topic call (by rw [hpc]; rfl) err
    · intro sub call todo err hpc
      exact h.unfailed.drain sub call todo hpc err
  | stay | peerSend =>
    refine ⟨?_, h.inOrder.same rfl id rfl rfl rfl, hun⟩
    rw [List.append_nil]
    exact ⟨h.serves.serve, h.serves.written⟩
  | drain hctl =>
    have hpc := hidle (by rw [hctl]; exact List.mem_cons_self)
    refine ⟨?_, h.inOrder.same ?_ ?_ rfl rfl rfl, hun⟩
    · rw [List.append_nil]
      exact ⟨h.serves.serve, h.serves.written⟩
    · rw [hpc]
      rfl
    · exact fun hd => by simp [hd]
  | close => exact absurd rfl hclose

end Change

end EventBus
