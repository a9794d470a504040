import EventBus.Spec.BrokerFanOut
import EventBus.Spec.ServerCalls
import Mathlib.Data.List.Chain

/-!
# Stop-and-wait delivery

A delivery goroutine takes the events of its subscription one by one. It writes each up
to three times and goes on to the next only after an ACK for it has been credited to its
channel. What it writes is therefore a sequence of events in the order of the channel,
the copies of one event next to each other.

The ACK is credited when `acknowledge` looks its ID up in `c.pendingAck`. The frame may
have been read before `deliver` entered its channel there.

## Key results

- `received_by`: only its delivery goroutine receives from a connection's subscription
- `ack_inv`: an ACK reaches a channel after the channel was entered in `c.pendingAck`
- `Server.delivery_induct`: the induction over a run, for one delivery goroutine
- `history_inv`: what each delivery goroutine has written, by program counter
- `delivery_rows`: stop-and-wait delivery, in every run of a server
-/

namespace EventBus

variable {w w' : Bus} {a : ConnAction} {os : List Obs} {p sub : SubPtr} {x : Copy}
  {log : List ServerObs} {config : Config} {G : Server → ServerAction → Prop} {k : ConnId}
  {c c' : Connection} {s s' : Server} {L obs : List ConnObs} {ch : AckChan} {status : UInt8}
  {pc pc' : ServePc} {bus : Option Action} {d : Delivery} {payload : Bytes} {n : Nat}
  {recv : List Copy}

/-! ## Who receives -/

/-- An event is received by the step that receives from the channel. -/
theorem Effect.received {a : Action} (h : Effect w a w' os) (ho : .received p x ∈ os) :
    a = .receive p ∧ p < w.subs.length := by
  cases h with
  | call _ hm => cases hm <;> simp at ho
  | receive hs =>
    obtain ⟨rfl, -⟩ := Obs.received.inj (List.mem_singleton.mp ho)
    exact ⟨rfl, (List.getElem?_eq_some_iff.mp hs).1⟩
  | _ => simp at ho

@[simp] theorem receivedFrom_append (log log' : List Obs) (p : SubPtr) :
    receivedFrom (log ++ log') p = receivedFrom log p ++ receivedFrom log' p :=
  List.filterMap_append

theorem receivedFrom_eq_nil {log : List Obs} (h : ∀ x, .received p x ∉ log) :
    receivedFrom log p = [] := by
  simp only [receivedFrom, List.filterMap_eq_nil_iff]
  intro o ho
  split
  · split
    · rename_i hs
      exact absurd (hs ▸ ho) (h _)
    · rfl
  · rfl

/-- Nobody receives from a subscription that does not exist. -/
theorem receivedFrom_alloc {G : Bus → Action → Prop} {log : List Obs}
    (h : (Bus.lts config).Reach G log w) (hp : ¬p < w.subs.length) :
    receivedFrom log p = [] := by
  have hall : ∀ x, .received p x ∈ log → p < w.subs.length := by
    refine h.invariant (P := fun log w => ∀ x, .received p x ∈ log → p < w.subs.length)
      (by simp) ?_
    intro log w a w' os hinv _ hstep x hx
    have heff := step_effect hstep
    rcases List.mem_append.mp hx with hold | hnew
    · exact heff.alloc (hinv x hold)
    · exact heff.alloc (heff.received hnew).2
  exact receivedFrom_eq_nil fun x hx => hp (hall x hx)

section Receive

variable {a : ServerAction} {os : List ServerObs}

/-- An event is received by another user that was given the subscription, or by a delivery
    goroutine of it. -/
theorem ServerEffect.received (h : ServerEffect s a s' os) (ho : .received sub x ∈ busLog os) :
    s.heldByOthers sub = true ∨ ∃ k c, s.connections k = some c ∧
      c.deliveries sub = some .ranging ∧ ∃ act, a = .conn k act := by
  cases h with
  | bus hadm hstep =>
    rw [busLog_map_bus] at ho
    obtain ⟨rfl, -⟩ := (step_effect hstep).received ho
    exact .inl hadm
  | connBus hc hm hstep =>
    rw [busLog_append, busLog_map_bus, busLog_map_conn, List.append_nil] at ho
    obtain ⟨rfl, -⟩ := (step_effect hstep).received ho
    rcases hm.bus_cases rfl with ⟨_, _, heq⟩ | ⟨_, heq, hran⟩
    · cases heq
    · obtain rfl := Action.receive.inj heq
      exact .inr ⟨_, _, hc, hran, _, rfl⟩
  | beginShutdown _ hstep =>
    rw [busLog_map_bus] at ho
    cases ((step_effect hstep).received ho).1
  | conn =>
    rw [busLog_map_conn] at ho
    cases ho
  | gracefulShutdown => simp [busLog, ServerObs.bus?] at ho
  | _ => cases ho

/-- Only its delivery goroutine receives from a subscription that a connection owns. -/
theorem received_by (h : ServerEffect s a s' os) (hinv : s.OwnInv) (hc : s.connections k = some c)
    (hown : c.Owns s.bus sub) (ho : .received sub x ∈ busLog os) :
    c.deliveries sub = some .ranging ∧ ∃ act, a = .conn k act := by
  rcases h.received ho with hheld | ⟨k', c', hc', hran, act, rfl⟩
  · rw [hinv.free k c sub hc hown] at hheld
    cases hheld
  · have hown' : c'.Owns s.bus sub := .inr (by rw [hran]; exact Option.some_ne_none _)
    obtain rfl := hinv.unique k k' c c' sub hc hc' hown hown'
    rw [hc, Option.some.injEq] at hc'
    subst hc'
    exact ⟨hran, act, rfl⟩

end Receive

/-- Nothing has been received from a subscription that `serve` holds. -/
theorem held_unreceived (h : (Server.lts config).Reach G log s) (hc : s.connections k = some c)
    (hh : c.Holds s.bus sub) :
    receivedFrom (busLog log) sub = [] := by
  have hall : ∀ k c sub, s.connections k = some c → c.Holds s.bus sub →
      receivedFrom (busLog log) sub = [] := by
    refine h.induct_reach (P := fun log s => ∀ k c sub, s.connections k = some c →
      c.Holds s.bus sub → receivedFrom (busLog log) sub = []) ?_ ?_
    · rintro _ rfl k c sub hc
      cases hc
    · intro log s a s' os hr hinv _ hstep k c' sub hc' hh'
      have heff := server_step_effect hstep
      have hown := own_inv hr
      obtain ⟨b, hb⟩ := heff.bus_step
      rw [busLog_append, receivedFrom_append]
      rcases heff.conn_cases hc' with ⟨-, rfl, -⟩ | ⟨c, _, hc, -, hch⟩
      · exact absurd (.inl hh') (Connection.not_owns_new _ _)
      rcases hch.holds hb hh' with hold | ⟨hsub, -, call, -, rfl⟩
      · -- the goroutine that would receive has not been started
        rw [hinv k c sub hc hold, receivedFrom_eq_nil fun x hx => ?_]
        · rfl
        · have hran := (received_by heff hown hc (.inl hold) hx).1
          rw [hown.fresh k c sub hc hold] at hran
          cases hran
      · rw [receivedFrom_alloc (Server.reach_bus hr) (hsub ▸ Nat.lt_irrefl _),
          receivedFrom_eq_nil fun x hx => nomatch ((step_effect hb).received hx).1]
        rfl
  exact hall k c sub hc hh

/-! ## ACK channels -/

/-- Channel `ch` was entered in `c.pendingAck` for `x` before an ACK with the ID of `x` was
    looked up there; the ACK is a frame that `serve` had read. -/
def Credited (L : List ConnObs) (sub : SubPtr) (ch : AckChan) (x : Copy) (status : UInt8) : Prop :=
  ∃ l₁ l₂ ack frame, L = l₁ ++ .looked ack (some ch) :: l₂ ∧ .registered sub ch x ∈ l₁ ∧
    .read frame ∈ l₁ ∧ frame.type = typeAck ∧ decodeAck frame.payload = .ok ack ∧
    ack.id = x.event.id ∧ ack.status = status

theorem Credited.append (h : Credited L sub ch x status) (obs : List ConnObs) :
    Credited (L ++ obs) sub ch x status := by
  obtain ⟨l₁, l₂, ack, frame, rfl, hrest⟩ := h
  exact ⟨l₁, l₂ ++ obs, ack, frame, by simp, hrest⟩

/-- The ACK channels of a connection that has reported `L`. -/
structure Connection.AckInv (L : List ConnObs) (c : Connection) : Prop where
  handled : ∀ frame, c.serve = .handle frame → .read frame ∈ L
  pending : ∀ id ch, c.pendingAck.lookup id = some ch →
    ∃ sub x, .registered sub ch x ∈ L ∧ x.event.id = id
  sending : ∀ ch status, c.serve = .acknowledgeSend ch status →
    ∃ sub x, Credited L sub ch x status
  buffered : ∀ (ch : AckChan) (chan : Chan UInt8) status, c.acks[ch]? = some chan →
    status ∈ chan.buf → ∃ sub x, Credited L sub ch x status
  made : ∀ sub ch x, .registered sub ch x ∈ L → ch < c.acks.length
  unique : ∀ sub sub' ch x x', .registered sub ch x ∈ L → .registered sub' ch x' ∈ L →
    sub = sub' ∧ x = x'

/-- What a step of a connection can do to its ACK channels. -/
structure AckStep (c c' : Connection) (obs : List ConnObs) : Prop where
  handled : ∀ frame, c'.serve = .handle frame → c.serve = .handle frame ∨ .read frame ∈ obs
  sending : ∀ ch status, c'.serve = .acknowledgeSend ch status →
    c.serve = .acknowledgeSend ch status ∨
      ∃ frame ack, c.serve = .handle frame ∧ frame.type = typeAck ∧
        decodeAck frame.payload = .ok ack ∧ c.pendingAck.lookup ack.id = some ch ∧
        ack.status = status ∧ obs = [.looked ack (some ch)]
  pending : ∀ id ch, c'.pendingAck.lookup id = some ch →
    c.pendingAck.lookup id = some ch ∨ ∃ sub x, .registered sub ch x ∈ obs ∧ x.event.id = id
  buffered : ∀ (ch : AckChan) (chan : Chan UInt8) status, c'.acks[ch]? = some chan →
    status ∈ chan.buf → c.serve = .acknowledgeSend ch status ∨
      ∃ chan, c.acks[ch]? = some chan ∧ status ∈ chan.buf
  length : c.acks.length ≤ c'.acks.length
  made : ∀ sub ch x, .registered sub ch x ∈ obs →
    obs = [.registered sub ch x] ∧ ch = c.acks.length ∧ ch < c'.acks.length

/-- A step that leaves the ACK channels alone. -/
theorem AckStep.of_channels {c c' : Connection} {obs : List ConnObs}
    (hhandled : ∀ frame, c'.serve = .handle frame → c.serve = .handle frame ∨ .read frame ∈ obs)
    (hsending : ∀ ch status, c'.serve = .acknowledgeSend ch status →
      c.serve = .acknowledgeSend ch status ∨
        ∃ frame ack, c.serve = .handle frame ∧ frame.type = typeAck ∧
          decodeAck frame.payload = .ok ack ∧ c.pendingAck.lookup ack.id = some ch ∧
          ack.status = status ∧ obs = [.looked ack (some ch)])
    (hpending : c'.pendingAck = c.pendingAck) (hacks : c'.acks = c.acks)
    (hobs : ∀ sub ch x, .registered sub ch x ∉ obs) : AckStep c c' obs where
  handled := hhandled
  sending := hsending
  pending _ _ hl := .inl (hpending ▸ hl)
  buffered _ chan _ hch hst := .inr ⟨chan, hacks ▸ hch, hst⟩
  length := by rw [hacks]
  made sub ch x hreg := absurd hreg (hobs sub ch x)

/-- Such a step whose `serve` is at no lookup and no `select` of `acknowledge`, or stays where it
    is. -/
theorem AckStep.of_eq {c c' : Connection} {obs : List ConnObs}
    (hhandled : ∀ frame, c'.serve = .handle frame → c.serve = .handle frame)
    (hsending : ∀ ch status, c'.serve = .acknowledgeSend ch status →
      c.serve = .acknowledgeSend ch status)
    (hpending : c'.pendingAck = c.pendingAck) (hacks : c'.acks = c.acks)
    (hobs : ∀ sub ch x, .registered sub ch x ∉ obs) : AckStep c c' obs :=
  .of_channels (fun frame hpc => .inl (hhandled frame hpc))
    (fun ch status hpc => .inl (hsending ch status hpc)) hpending hacks hobs

theorem AckStep.same (hserve : c'.serve = c.serve) (hpending : c'.pendingAck = c.pendingAck)
    (hacks : c'.acks = c.acks) : AckStep c c' [] :=
  .of_eq (fun _ hpc => hserve ▸ hpc) (fun _ _ hpc => hserve ▸ hpc) hpending hacks nofun

section Move

variable {out : Out}

theorem ServePc.not_handle_of_plain (h : pc.plain = true) (frame : Frame) :
    pc ≠ .handle frame := by
  rintro rfl
  cases h

theorem ServePc.not_acknowledge_of_plain (h : pc.plain = true) (ch : AckChan) (status : UInt8) :
    pc ≠ .acknowledgeSend ch status := by
  rintro rfl
  cases h

theorem ServeMove.not_handle (h : ServeMove s c a pc pc' bus obs) (frame : Frame) :
    pc' ≠ .handle frame := by
  cases h with
  | subscribe | ackInvalid | unsupported | publishDraining | publishAllowed | subscribeError
  | publishReturn | send | sendReport | sendIgnore =>
    exact ServePc.not_handle_of_plain (by simp) frame
  | _ => exact nofun

/-- `serve` sends on the channel that it has looked up for an ACK. -/
theorem ServeMove.acknowledge (h : ServeMove s c a pc pc' bus obs)
    (hpc' : pc' = .acknowledgeSend ch status) :
    ∃ frame ack, pc = .handle frame ∧ frame.type = typeAck ∧
      decodeAck frame.payload = .ok ack ∧ c.pendingAck.lookup ack.id = some ch ∧
      ack.status = status ∧ obs = [.looked ack (some ch)] := by
  cases h with
  | ackKnown htype hdec hl =>
    obtain ⟨rfl, rfl⟩ := ServePc.acknowledgeSend.inj hpc'
    exact ⟨_, _, rfl, htype, hdec, hl, rfl, rfl⟩
  | subscribe | ackInvalid | unsupported | publishDraining | publishAllowed | subscribeError
  | publishReturn | send | sendReport | sendIgnore =>
    exact absurd hpc' (ServePc.not_acknowledge_of_plain (by simp) ch status)
  | _ => cases hpc'

theorem ServeMove.not_registered (h : ServeMove s c a pc pc' bus obs) (sub : SubPtr)
    (ch : AckChan) (x : Copy) :
    .registered sub ch x ∉ obs := by
  cases h <;> simp

/-- Every step of a connection is one of these. -/
theorem ConnMove.ackStep (h : ConnMove s c a out) : AckStep c out.conn out.obs := by
  cases h with
  | serve hpc hm =>
    subst hpc
    exact .of_channels (fun frame hout => absurd hout (hm.not_handle frame))
      (fun ch status hout => .inr (hm.acknowledge hout)) rfl rfl hm.not_registered
  | connect =>
    refine .of_eq (fun frame hout => ?_) (fun ch status hout => ?_) rfl rfl (by simp)
    · exact absurd hout (ServePc.not_handle_of_plain (plain_connectNext _) frame)
    · exact absurd hout (ServePc.not_acknowledge_of_plain (plain_connectNext _) ch status)
  | read =>
    refine .of_channels (fun frame hout => ?_) nofun rfl rfl (by simp)
    rw [ServePc.handle.inj hout]
    exact .inr (.head _)
  | store | replaced | spawn | unsubscribe | abort => exact .of_eq nofun nofun rfl rfl nofun
  | @acknowledge ch status chan chan' hpc hch hsend =>
    -- the status that is sent now is the one `serve` had in hand
    obtain ⟨-, -, hbuf, -, -⟩ := Chan.send_done hsend
    exact {
      handled := nofun
      sending := nofun
      pending := fun _ _ hl => .inl hl
      buffered := by
        intro ch' chan₁ status' hch' hst
        rcases List.getElem?_set_cases hch' with ⟨rfl, rfl⟩ | ⟨-, hold⟩
        · rw [hbuf, List.mem_append, List.mem_singleton] at hst
          rcases hst with hst | rfl
          · exact .inr ⟨chan, hch, hst⟩
          · exact .inl hpc
        · exact .inr ⟨chan₁, hold, hst⟩
      length := by simp
      made := nofun }
  | deliver hpc hm => exact .of_eq (fun _ => id) (fun _ _ => id) rfl rfl (by cases hm <;> simp)
  | @register sub x payload hpc henc =>
    exact {
      handled := fun _ hout => .inl hout
      sending := fun _ _ hout => .inl hout
      pending := by
        intro id ch hl
        -- the new channel takes the place of any other under this ID
        by_cases hid : id = x.event.id
        · subst hid
          rw [AList.lookup_insert, Option.some.injEq] at hl
          subst hl
          exact .inr ⟨sub, x, .head _, rfl⟩
        · rw [AList.lookup_insert_ne hid] at hl
          exact .inl hl
      buffered := by
        intro ch chan status hch hst
        rcases List.getElem?_concat_cases hch with hold | ⟨-, rfl⟩
        · exact .inr ⟨chan, hold, hst⟩
        · cases hst
      length := by simp
      made := by
        intro sub' ch' x' hreg
        obtain ⟨rfl, rfl, rfl⟩ := ConnObs.registered.inj (List.mem_singleton.mp hreg)
        exact ⟨rfl, rfl, by simp⟩ }
  | @acknowledged sub x payload ch attempt chan chan' status hpc hch hrecv =>
    obtain ⟨hbuf, -, -⟩ := Chan.receive_some hrecv
    exact {
      handled := fun _ hout => .inl hout
      sending := fun _ _ hout => .inl hout
      pending := fun _ _ hl => .inl hl
      buffered := by
        intro ch' chan₁ status' hch' hst
        rcases List.getElem?_set_cases hch' with ⟨rfl, rfl⟩ | ⟨-, hold⟩
        · exact .inr ⟨chan, hch, by rw [hbuf]; exact .tail _ hst⟩
        · exact .inr ⟨chan₁, hold, hst⟩
      length := by simp
      made := nofun }
  | @leave sub x ok hpc =>
    exact {
      handled := fun _ hout => .inl hout
      sending := fun _ _ hout => .inl hout
      pending := by
        intro id ch hl
        by_cases hid : id = x.event.id
        · subst hid
          rw [AList.lookup_erase] at hl
          cases hl
        · rw [AList.lookup_erase_ne hid] at hl
          exact .inl hl
      buffered := fun _ chan _ hch hst => .inr ⟨chan, hch, hst⟩
      length := Nat.le_refl _
      made := by simp }
  | graceful hpc hm => exact .of_eq (fun _ => id) (fun _ _ => id) rfl rfl (by cases hm <;> simp)
  | _ => exact .same rfl rfl rfl

end Move

theorem ConnChange.ackStep {bos : List Obs} {a : ServerAction}
    (h : ConnChange s s' bos k c a c' obs) :
    AckStep c c' obs := by
  cases h with
  | move hm => exact hm.ackStep
  | _ => exact .same rfl rfl rfl

/-- Such a step keeps the invariant. -/
theorem Connection.AckInv.step (hinv : c.AckInv L) (h : AckStep c c' obs) :
    c'.AckInv (L ++ obs) where
  handled frame hpc := by
    rcases h.handled frame hpc with hold | hread
    · exact List.mem_append_left _ (hinv.handled frame hold)
    · exact List.mem_append_right _ hread
  pending id ch hl := by
    rcases h.pending id ch hl with hold | ⟨sub, x, hreg, hid⟩
    · obtain ⟨sub, x, hreg, hid⟩ := hinv.pending id ch hold
      exact ⟨sub, x, List.mem_append_left _ hreg, hid⟩
    · exact ⟨sub, x, List.mem_append_right _ hreg, hid⟩
  sending ch status hpc := by
    rcases h.sending ch status hpc with hold | ⟨frame, ack, hpc, htype, hdec, hl, hst, rfl⟩
    · obtain ⟨sub, x, hcr⟩ := hinv.sending ch status hold
      exact ⟨sub, x, hcr.append obs⟩
    · obtain ⟨sub, x, hreg, hid⟩ := hinv.pending ack.id ch hl
      exact ⟨sub, x, L, [], ack, frame, rfl, hreg, hinv.handled frame hpc, htype, hdec, hid.symm,
        hst⟩
  buffered ch chan status hch hst := by
    rcases h.buffered ch chan status hch hst with hsend | ⟨chan', hch', hst'⟩
    · obtain ⟨sub, x, hcr⟩ := hinv.sending ch status hsend
      exact ⟨sub, x, hcr.append obs⟩
    · obtain ⟨sub, x, hcr⟩ := hinv.buffered ch chan' status hch' hst'
      exact ⟨sub, x, hcr.append obs⟩
  made sub ch x hreg := by
    rcases List.mem_append.mp hreg with hold | hnew
    · exact Nat.lt_of_lt_of_le (hinv.made sub ch x hold) h.length
    · exact (h.made sub ch x hnew).2.2
  unique sub sub' ch x x' hreg hreg' := by
    -- a channel just made is none of those made before
    have hfresh : ∀ {sub sub' x x'}, .registered sub ch x ∈ L → .registered sub' ch x' ∉ obs := by
      intro sub sub' x x' hold hnew
      exact absurd (h.made sub' ch x' hnew).2.1 (Nat.ne_of_lt (hinv.made sub ch x hold))
    rcases List.mem_append.mp hreg with hold | hnew <;>
      rcases List.mem_append.mp hreg' with hold' | hnew'
    · exact hinv.unique sub sub' ch x x' hold hold'
    · exact absurd hnew' (hfresh hold)
    · exact absurd hnew (hfresh hold')
    · rw [(h.made sub ch x hnew).1, List.mem_singleton] at hnew'
      obtain ⟨rfl, -, rfl⟩ := ConnObs.registered.inj hnew'
      exact ⟨rfl, rfl⟩

/-- The ACK channels of a connection, in every run. -/
theorem ack_inv (h : (Server.lts config).Reach G log s) (hc : s.connections k = some c) :
    c.AckInv (connLog k log) := by
  refine Server.conn_induct h hc (I := fun L _ c => c.AckInv L) ?_ ?_
  · exact fun _ => ⟨nofun, nofun, nofun, nofun, nofun, nofun⟩
  · exact fun _ _ _ _ _ _ _ _ _ _ _ _ _ _ _ hch hinv => hinv.step hch.ackStep

/-- Nobody closes the channels made by `deliver`. -/
theorem acks_open (h : (Server.lts config).Reach G log s) (hc : s.connections k = some c) :
    ∀ chan ∈ c.acks, chan.closed = false := by
  refine Server.conn_induct h hc (I := fun _ _ c => ∀ chan ∈ c.acks, chan.closed = false) ?_ ?_
  · exact fun _ => nofun
  intro log s a s' os c c' obs b _ _ _ _ _ _ hch hopen
  cases hch with
  | move hm =>
    cases hm with
    | acknowledge _ _ hsend =>
      intro chan hmem
      rcases List.mem_or_eq_of_mem_set hmem with hold | rfl
      · exact hopen chan hold
      · exact (Chan.send_done hsend).2.2.2.2
    | register =>
      intro chan hmem
      rcases List.mem_append.mp hmem with hold | hnew
      · exact hopen chan hold
      · rw [List.mem_singleton.mp hnew]
        rfl
    | acknowledged _ hget hreceive =>
      intro chan hmem
      rcases List.mem_or_eq_of_mem_set hmem with hold | rfl
      · exact hopen chan hold
      · rw [(Chan.receive_some hreceive).2.2]
        exact hopen _ (List.mem_of_getElem? hget)
    | _ => exact hopen
  | _ => exact hopen

/-- The channel that `acknowledge` sends to is open. -/
theorem acknowledge_open (h : (Server.lts config).Reach G log s) (hc : s.connections k = some c)
    (hpc : c.serve = .acknowledgeSend ch status) :
    ∃ chan, c.acks[ch]? = some chan ∧ chan.closed = false := by
  have hinv := ack_inv h hc
  obtain ⟨sub, x, l₁, l₂, ack, frame, heq, hreg, -⟩ := hinv.sending ch status hpc
  have hlt := hinv.made sub ch x (heq ▸ List.mem_append_left _ hreg)
  exact ⟨c.acks[ch], List.getElem?_eq_getElem hlt, acks_open h hc _ (List.getElem_mem hlt)⟩

/-! ## What a delivery goroutine writes -/

/-- A call of `deliver`: the channel it made, its event, the payload of its frames and how
    many of them it has written. -/
structure Delivery where
  ch : AckChan
  x : Copy
  payload : Bytes
  attempts : Nat

/-- The frames it has written, each with its channel. -/
def Delivery.frames (d : Delivery) : List (AckChan × Frame) :=
  .replicate d.attempts (d.ch, ⟨typeEvent, d.payload⟩)

/-- The frames written by the delivery goroutine of `sub`, each with the channel of the
    call of `deliver` that wrote it. -/
def deliveryFrames (sub : SubPtr) (L : List ConnObs) : List (AckChan × Frame) :=
  L.filterMap fun
    | .wrote (.delivery sub' ch) frame => if sub' = sub then some (ch, frame) else none
    | _ => none

@[simp] theorem deliveryFrames_append (sub : SubPtr) (L obs : List ConnObs) :
    deliveryFrames sub (L ++ obs) = deliveryFrames sub L ++ deliveryFrames sub obs :=
  List.filterMap_append

theorem mem_deliveryFrames {frame : Frame} (h : .wrote (.delivery sub ch) frame ∈ L) :
    (ch, frame) ∈ deliveryFrames sub L :=
  List.mem_filterMap.mpr ⟨_, h, if_pos rfl⟩

theorem deliveryFrames_eq_nil (h : ∀ o ∈ L, o.reporter? ≠ some sub) :
    deliveryFrames sub L = [] := by
  refine List.filterMap_eq_nil_iff.mpr fun o ho => ?_
  split
  · exact if_neg fun heq => h _ ho (congrArg some heq)
  · rfl

/-- The call was made for a copy it could encode. -/
structure Delivery.Valid (L : List ConnObs) (sub : SubPtr) (d : Delivery) : Prop where
  registered : .registered sub d.ch d.x ∈ L
  encoded : encodeEvent d.x.event = .ok d.payload
  bounded : d.attempts ≤ deliveryMaxAttempts

/-- The call was acknowledged. -/
def Delivery.Acked (L : List ConnObs) (sub : SubPtr) (d : Delivery) : Prop :=
  Credited L sub d.ch d.x ackDelivered

/-- Call `d` was acknowledged before call `d'` wrote its first frame. -/
def AckedBefore (L : List ConnObs) (sub : SubPtr) (d d' : Delivery) : Prop :=
  ∃ l₁ l₂, L = l₁ ++ l₂ ∧ d.Acked l₁ sub ∧ ∀ frame, .wrote (.delivery sub d'.ch) frame ∉ l₁

theorem Delivery.Valid.append (h : d.Valid L sub) (obs : List ConnObs) : d.Valid (L ++ obs) sub :=
  ⟨List.mem_append_left _ h.registered, h.encoded, h.bounded⟩

theorem AckedBefore.append {d' : Delivery} (h : AckedBefore L sub d d') (obs : List ConnObs) :
    AckedBefore (L ++ obs) sub d d' := by
  obtain ⟨l₁, l₂, rfl, hrest⟩ := h
  exact ⟨l₁, l₂ ++ obs, List.append_assoc _ _ _, hrest⟩

/-- Where the goroutine of `sub` stands, its call of `deliver`, and the events it has
    received and not called `deliver` for. -/
inductive DeliverStage (L : List ConnObs) (sub : SubPtr) :
    Option DeliverPc → Option Delivery → List Copy → Prop
  | none {rest : List Copy} : DeliverStage L sub none none rest
  | ranging : DeliverStage L sub (some .ranging) none []
  | registering {x : Copy} : DeliverStage L sub (some (.registering x)) none [x]
  | sending {x : Copy} {payload : Bytes} {ch : AckChan} {n : Nat} : n < deliveryMaxAttempts →
      DeliverStage L sub (some (.sending x payload ch (n + 1))) (some ⟨ch, x, payload, n⟩) []
  | waiting {x : Copy} {payload : Bytes} {ch : AckChan} {n : Nat} : 1 ≤ n →
      DeliverStage L sub (some (.waiting x payload ch n)) (some ⟨ch, x, payload, n⟩) []
  | acked {x : Copy} {d : Delivery} : 1 ≤ d.attempts → d.Acked L sub →
      DeliverStage L sub (some (.leaving x true)) (some d) []
  | failed {x : Copy} {cur : Option Delivery} {rest : List Copy} :
      DeliverStage L sub (some (.leaving x false)) cur rest
  | ending {cur : Option Delivery} {rest : List Copy} : DeliverStage L sub (some .ending) cur rest
  | ended {cur : Option Delivery} {rest : List Copy} : DeliverStage L sub (some .ended) cur rest

theorem DeliverStage.append {pc : Option DeliverPc} {cur : Option Delivery} {rest : List Copy}
    (h : DeliverStage L sub pc cur rest) (obs : List ConnObs) :
    DeliverStage (L ++ obs) sub pc cur rest := by
  cases h with
  | acked hone hack => exact .acked hone (Credited.append hack obs)
  | sending hlt => exact .sending hlt
  | waiting hone => exact .waiting hone
  | none => exact .none
  | ranging => exact .ranging
  | registering => exact .registering
  | failed => exact .failed
  | ending => exact .ending
  | ended => exact .ended

/-- The calls of `deliver` for `sub`: `rows` have returned true, `cur` is the last one,
    `recv` is what the goroutine has received. -/
structure History (L : List ConnObs) (recv : List Copy) (sub : SubPtr) (pc : Option DeliverPc)
    (rows : List Delivery) (cur : Option Delivery) (rest : List Copy) : Prop where
  valid : ∀ d ∈ rows ++ cur.toList, d.Valid L sub
  acked : ∀ d ∈ rows, 1 ≤ d.attempts ∧ d.Acked L sub
  chain : (rows ++ cur.toList).IsChain (AckedBefore L sub)
  frames : deliveryFrames sub L = (rows ++ cur.toList).flatMap Delivery.frames
  received : recv = (rows ++ cur.toList).map Delivery.x ++ rest
  stage : DeliverStage L sub pc cur rest

def HistoryInv (L : List ConnObs) (recv : List Copy) (sub : SubPtr) (pc : Option DeliverPc) :
    Prop :=
  ∃ rows cur rest, History L recv sub pc rows cur rest

namespace History

variable {new : List Copy} {pc pc' : Option DeliverPc} {rows : List Delivery}
  {cur : Option Delivery} {rest rest' : List Copy}

/-- The goroutine moves without a write and without a new call of `deliver`. -/
theorem move (h : History L recv sub pc rows cur rest) (hobs : deliveryFrames sub obs = [])
    (hrest : rest' = rest ++ new) (hstage : DeliverStage (L ++ obs) sub pc' cur rest') :
    HistoryInv (L ++ obs) (recv ++ new) sub pc' := by
  refine ⟨rows, cur, rest', fun d hd => (h.valid d hd).append obs, ?_, ?_, ?_, ?_, hstage⟩
  · exact fun d hd => ⟨(h.acked d hd).1, Credited.append (h.acked d hd).2 obs⟩
  · exact h.chain.imp fun d d' hbefore => hbefore.append obs
  · rw [deliveryFrames_append, hobs, List.append_nil, h.frames]
  · rw [h.received, hrest, List.append_assoc]

/-- The goroutine calls `deliver`, which makes a new channel. -/
theorem register (h : History L recv sub (some (.registering x)) rows cur rest)
    (hmade : ∀ ch x, .registered sub ch x ∈ L → ch < n) (henc : encodeEvent x.event = .ok payload) :
    HistoryInv (L ++ [.registered sub n x]) recv sub (some (.sending x payload n 1)) := by
  obtain ⟨hvalid, hacked, hchain, hframes, hrecv, hstage⟩ := h
  cases hstage
  rw [Option.toList_none, List.append_nil] at *
  -- no frame has been written for the new channel
  have hfresh : ∀ frame, .wrote (.delivery sub n) frame ∉ L := by
    intro frame hw
    have hmem := mem_deliveryFrames hw
    rw [hframes, List.mem_flatMap] at hmem
    obtain ⟨d, hd, hf⟩ := hmem
    have hch : n = d.ch := congrArg Prod.fst (List.eq_of_mem_replicate hf)
    exact absurd hch (Nat.ne_of_gt (hmade d.ch d.x (hvalid d hd).registered))
  refine ⟨rows, some ⟨n, x, payload, 0⟩, [], ?_, ?_, ?_, ?_, ?_, .sending (by decide)⟩
  · intro d hd
    rcases List.mem_append.mp hd with hold | hnew
    · exact (hvalid d hold).append _
    · obtain rfl := List.mem_singleton.mp hnew
      exact ⟨by simp, henc, Nat.zero_le _⟩
  · exact fun d hd => ⟨(hacked d hd).1, Credited.append (hacked d hd).2 _⟩
  · refine (hchain.imp fun d d' hbefore => hbefore.append _).append (.singleton _) ?_
    intro d hd d' hd'
    obtain rfl : _ = d' := Option.some.inj hd'
    exact ⟨L, _, rfl, (hacked d (List.mem_of_getLast? hd)).2, hfresh⟩
  · rw [deliveryFrames_append, hframes, List.flatMap_append]
    rfl
  · rw [hrecv, List.map_append, List.append_nil]
    rfl

/-- `deliver` writes a frame. -/
theorem write (h : History L recv sub (some (.sending x payload ch n)) rows cur rest) :
    HistoryInv (L ++ [.wrote (.delivery sub ch) ⟨typeEvent, payload⟩]) recv sub
      (some (.waiting x payload ch n)) := by
  obtain ⟨hvalid, hacked, hchain, hframes, hrecv, hstage⟩ := h
  cases hstage with
  | @sending _ _ _ n hlt =>
    refine ⟨rows, some ⟨ch, x, payload, n + 1⟩, [], ?_, ?_, ?_, ?_, by simpa using hrecv,
      .waiting (by omega)⟩
    · intro d hd
      rcases List.mem_append.mp hd with hold | hnew
      · exact (hvalid d (List.mem_append_left _ hold)).append _
      · obtain rfl := List.mem_singleton.mp hnew
        have hcur := hvalid ⟨ch, x, payload, n⟩ (by simp)
        exact ⟨List.mem_append_left _ hcur.registered, hcur.encoded, hlt⟩
    · exact fun d hd => ⟨(hacked d hd).1, Credited.append (hacked d hd).2 _⟩
    · rw [Option.toList_some, List.isChain_append] at hchain ⊢
      obtain ⟨hrows, -, hlast⟩ := hchain
      refine ⟨hrows.imp fun d d' hbefore => hbefore.append _, .singleton _, fun d hd d' hd' => ?_⟩
      cases hd'
      exact (hlast d hd _ rfl).append _
    · rw [deliveryFrames_append, hframes, Option.toList_some, Option.toList_some,
        List.flatMap_append, List.flatMap_append, List.append_assoc]
      simp [Delivery.frames, deliveryFrames, List.replicate_succ']

/-- An attempt ends without `ackDelivered`. -/
theorem nextAttempt (h : History L recv sub (some (.waiting x payload ch n)) rows cur rest) :
    HistoryInv (L ++ []) (recv ++ []) sub (some (Connection.nextAttempt x payload ch n)) := by
  have hstage := h.stage
  cases hstage with
  | waiting hone =>
    unfold Connection.nextAttempt
    split
    · exact h.move rfl rfl (.sending ‹_›)
    · exact h.move rfl rfl .failed

/-- `deliver` receives a status from its channel. -/
theorem acknowledged {chan : Chan UInt8}
    (h : History L recv sub (some (.waiting x payload ch n)) rows cur rest) (hack : c.AckInv L)
    (hch : c.acks[ch]? = some chan) (hmem : status ∈ chan.buf) :
    HistoryInv (L ++ []) (recv ++ []) sub (some (if status = ackDelivered then .leaving x true
      else Connection.nextAttempt x payload ch n)) := by
  have hstage := h.stage
  cases hstage with
  | waiting hone =>
    split
    · -- the status received was credited to this call
      rename_i hst
      obtain ⟨sub', x', hcr⟩ := hack.buffered ch chan status hch hmem
      obtain ⟨l₁, l₂, ack, frame, hL, hreg, -⟩ := id hcr
      have hcur := (h.valid ⟨ch, x, payload, n⟩ (by simp)).registered
      obtain ⟨rfl, rfl⟩ := hack.unique sub sub' ch x x' hcur
        (by rw [hL]; exact List.mem_append_left _ hreg)
      rw [hst] at hcr
      exact h.move rfl rfl (.acked hone (Credited.append hcr []))
    · exact h.nextAttempt

/-- `deliver` returns true. -/
theorem leave (h : History L recv sub (some (.leaving x true)) rows cur rest)
    (hobs : deliveryFrames sub obs = []) : HistoryInv (L ++ obs) recv sub (some .ranging) := by
  obtain ⟨hvalid, hacked, hchain, hframes, hrecv, hstage⟩ := h
  cases hstage with
  | @acked _ d hone hack =>
    have hrows : ∀ d' ∈ rows ++ [d], 1 ≤ d'.attempts ∧ d'.Acked L sub := by
      intro d' hd'
      rcases List.mem_append.mp hd' with hold | hnew
      · exact hacked d' hold
      · obtain rfl := List.mem_singleton.mp hnew
        exact ⟨hone, hack⟩
    have hist : History L recv sub (some .ranging) (rows ++ [d]) none [] :=
      ⟨by simpa using hvalid, hrows, by simpa using hchain, by simpa using hframes,
        by simpa using hrecv, .ranging⟩
    have hmoved : HistoryInv (L ++ obs) (recv ++ []) sub (some .ranging) :=
      hist.move hobs rfl .ranging
    rwa [List.append_nil] at hmoved

end History

/-- The goroutine of `sub` stays where it is. -/
theorem HistoryInv.quiet {new : List Copy} {pc : Option DeliverPc} (h : HistoryInv L recv sub pc)
    (hobs : deliveryFrames sub obs = []) (hnew : pc ≠ none → new = []) :
    HistoryInv (L ++ obs) (recv ++ new) sub pc := by
  obtain ⟨rows, cur, rest, hist⟩ := h
  cases pc with
  | none =>
    have hstage := hist.stage
    cases hstage
    exact hist.move hobs rfl .none
  | some pc =>
    rw [hnew (Option.some_ne_none _)]
    exact hist.move hobs (List.append_nil _).symm (hist.stage.append obs)

/-- An event is received only by the step of its receiver. -/
theorem BusStep.received {b : Option Action} (h : BusStep w b w' os) (ho : .received p x ∈ os) :
    b = some (.receive p) := by
  cases b with
  | none =>
    rw [h.2] at ho
    cases ho
  | some b => rw [((step_effect h).received ho).1]

theorem BusStep.receivedFrom_nil {b : Option Action} (h : BusStep w b w' os)
    (hne : b ≠ some (.receive p)) : receivedFrom os p = [] :=
  receivedFrom_eq_nil fun _ hx => hne (h.received hx)

/-- The bus answers a receive of the delivery goroutine with the event it goes on with. -/
theorem BusStep.receive {subscription : Subscription} {events : Chan Copy}
    (h : BusStep w (some (.receive sub)) w' os) (hs : w.subs[sub]? = some subscription)
    (hrecv : subscription.events.receive = .done (some x, events)) : receivedFrom os sub = [x] := by
  have hstep : w.step (.receive sub) = some (w', os) := h
  simp only [Bus.step, Bus.receive, hs, hrecv, Option.some.injEq, Prod.mk.injEq] at hstep
  obtain ⟨-, rfl⟩ := hstep
  simp [receivedFrom]

/-- The induction of proofs about one delivery goroutine: `I` holds before there is one and while
    it stands still, and the steps of its connection keep it. -/
theorem Server.delivery_induct {I : List ConnObs → List Copy → Bus → Option DeliverPc → Prop}
    (h : (Server.lts config).Reach G log s) (sub : SubPtr) (hc : s.connections k = some c)
    (hnew : ∀ recv w, I [] recv w none)
    (hstay : ∀ {L recv new w b w' os pc}, BusStep w b w' os → (pc ≠ none → new = []) →
      I L recv w pc → I L (recv ++ new) w' pc)
    (hstep : ∀ {L recv obs} {s s' : Server} {c a pc pc' bus os},
      DeliveryStep s c sub a pc pc' bus obs → BusStep s.bus bus s'.bus os → c.AckInv L →
      (c.serve = .subscribeSpawn sub → pc = none ∧ recv = []) → I L recv s.bus pc →
      I (L ++ obs) (recv ++ receivedFrom os sub) s'.bus pc') :
    I (connLog k log) (receivedFrom (busLog log) sub) s.bus (c.deliveries sub) := by
  refine h.induct_reach (P := fun log s => ∀ c, s.connections k = some c →
    I (connLog k log) (receivedFrom (busLog log) sub) s.bus (c.deliveries sub)) ?_ ?_ c hc
  · rintro _ rfl c hc
    cases hc
  intro log s a s' os hr ih _ hs c' hc'
  have heff := server_step_effect hs
  have hown := own_inv hr
  obtain ⟨b, hb⟩ := heff.bus_step
  rw [connLog_append, busLog_append, receivedFrom_append]
  rcases heff.conn_cases hc' with ⟨hnone, rfl, hlog⟩ | ⟨c, obs, hc, hlog, hch⟩
  · rw [connLog_eq_nil hr hnone, hlog]
    exact hnew _ _
  rw [hlog]
  -- a step of another goroutine than one of this connection
  have hother : (∀ act, a ≠ .conn k act) → I (connLog k log ++ [])
      (receivedFrom (busLog log) sub ++ receivedFrom (busLog os) sub) s'.bus
      (c.deliveries sub) := by
    intro hne
    rw [List.append_nil]
    refine hstay hb (fun hsome => receivedFrom_eq_nil fun x hx => ?_) (ih c hc)
    obtain ⟨-, act, hact⟩ := received_by heff hown hc (.inr hsome) hx
    exact hne act hact
  cases hch with
  | move hm hbus =>
    refine hstep (hm.deliveryStep sub) hbus (ack_inv hr hc) (fun hpc => ?_) (ih c hc)
    have hholds : c.Holds s.bus sub := .inl (by rw [hpc]; rfl)
    exact ⟨hown.fresh k c sub hc hholds, held_unreceived hr hc hholds⟩
  | stay hact => exact hother hact
  | _ => exact hother nofun

section Step

variable {bos : List Obs}

/-- A step of the goroutine keeps the history of its deliveries. -/
private theorem DeliverMove.history {pc pc' : DeliverPc}
    (hm : DeliverMove s c sub a pc pc' bus obs) (hb : BusStep s.bus bus s'.bus bos)
    (h : HistoryInv L recv sub (some pc)) :
    HistoryInv (L ++ obs) (recv ++ receivedFrom bos sub) sub (some pc') := by
  obtain ⟨rows, cur, rest, hist⟩ := h
  have hstage := hist.stage
  cases hm with
  | receive hs hrecv =>
    cases hstage
    rw [hb.receive hs hrecv]
    exact hist.move rfl rfl .registering
  | receiveEnd => exact hist.move rfl rfl .ending
  | encodeFails => exact hist.move (by simp [deliveryFrames]) rfl .ending
  | send =>
    rw [hb.receivedFrom_nil (by simp), List.append_nil]
    exact hist.write
  | sendFails => exact hist.move rfl rfl .failed
  | timeout =>
    rw [hb.receivedFrom_nil (by simp)]
    exact hist.nextAttempt

/-- A step of the connection keeps the history of the deliveries of each goroutine. -/
private theorem DeliveryStep.history {pc pc' : Option DeliverPc}
    (hd : DeliveryStep s c sub a pc pc' bus obs) (hb : BusStep s.bus bus s'.bus bos)
    (hack : c.AckInv L) (hspawn : c.serve = .subscribeSpawn sub → pc = none ∧ recv = [])
    (h : HistoryInv L recv sub pc) :
    HistoryInv (L ++ obs) (recv ++ receivedFrom bos sub) sub pc' := by
  cases hd with
  | other hbus hobs =>
    exact h.quiet (deliveryFrames_eq_nil hobs) fun _ => hb.receivedFrom_nil hbus
  | move hm => exact hm.history hb h
  | spawn hpc =>
    obtain ⟨rfl, rfl⟩ := hspawn hpc
    obtain ⟨rows, cur, rest, hist⟩ := h
    have hstage := hist.stage
    have hrest : rest = [] := (List.append_eq_nil_iff.mp hist.received.symm).2
    cases hstage
    rw [hb.2]
    exact hist.move rfl (by rw [hrest]; rfl) .ranging
  | register henc =>
    obtain ⟨rows, cur, rest, hist⟩ := h
    rw [hb.2]
    simpa [receivedFrom] using hist.register (hack.made sub) henc
  | @acknowledged x payload ch attempt chan chan' status hch hrecv =>
    obtain ⟨rows, cur, rest, hist⟩ := h
    have hmem : status ∈ chan.buf := by rw [(Chan.receive_some hrecv).1]; exact .head _
    rw [hb.2]
    exact hist.acknowledged hack hch hmem
  | @leave x ok =>
    obtain ⟨rows, cur, rest, hist⟩ := h
    rw [hb.2]
    cases ok with
    | true => simpa [receivedFrom] using hist.leave (by rfl)
    | false => exact hist.move rfl rfl .ending
  | ended =>
    obtain ⟨rows, cur, rest, hist⟩ := h
    exact hist.move rfl rfl .ended

end Step

/-- What the delivery goroutine of `sub` has received and written in a run. -/
theorem history_inv (h : (Server.lts config).Reach G log s) (sub : SubPtr)
    (hc : s.connections k = some c) :
    HistoryInv (connLog k log) (receivedFrom (busLog log) sub) sub (c.deliveries sub) := by
  refine Server.delivery_induct h sub hc (I := fun L recv _ pc => HistoryInv L recv sub pc) ?_ ?_
    fun hd hb => hd.history hb
  · exact fun recv _ => ⟨[], none, recv, by simp, by simp, .nil, rfl, rfl, .none⟩
  · intro L recv new _ _ _ _ pc _ hnew hist
    have hquiet : HistoryInv (L ++ []) (recv ++ new) sub pc := hist.quiet rfl hnew
    rwa [List.append_nil] at hquiet

/-- `rows` are the calls of `deliver` for `sub` that wrote a frame: they are made in the
    order in which their events were received, the frames of one come together, and each but
    the last was acknowledged before the next wrote its first frame. -/
structure StopAndWait (L : List ConnObs) (recv : List Copy) (sub : SubPtr) (rows : List Delivery) :
    Prop where
  frames : deliveryFrames sub L = rows.flatMap Delivery.frames
  received : rows.map Delivery.x <+: recv
  attempts : ∀ d ∈ rows, 1 ≤ d.attempts ∧ d.attempts ≤ deliveryMaxAttempts
  encoded : ∀ d ∈ rows, encodeEvent d.x.event = .ok d.payload
  acked : rows.IsChain (AckedBefore L sub)

/-- The history, without where the goroutine stands. -/
theorem HistoryInv.stopAndWait {pc : Option DeliverPc} (h : HistoryInv L recv sub pc) :
    ∃ rows, StopAndWait L recv sub rows := by
  obtain ⟨rows, cur, rest, hvalid, hacked, hchain, hframes, hrecv, -⟩ := h
  have hrows : ∀ d ∈ rows, 1 ≤ d.attempts ∧ d.attempts ≤ deliveryMaxAttempts := fun d hd =>
    ⟨(hacked d hd).1, (hvalid d (List.mem_append_left _ hd)).bounded⟩
  -- a last call that has written nothing is left out
  by_cases hcur : ∀ d ∈ cur.toList, 1 ≤ d.attempts
  · refine ⟨rows ++ cur.toList, hframes, ⟨rest, hrecv.symm⟩, fun d hd => ?_,
      fun d hd => (hvalid d hd).encoded, hchain⟩
    exact ⟨(List.mem_append.mp hd).elim (fun h => (hrows d h).1) (hcur d), (hvalid d hd).bounded⟩
  · simp only [Option.mem_toList, not_forall] at hcur
    obtain ⟨d, rfl, hzero⟩ := hcur
    rw [Option.toList_some] at hvalid hchain hframes hrecv
    refine ⟨rows, ?_, ⟨d.x :: rest, ?_⟩, hrows,
      fun d hd => (hvalid d (List.mem_append_left _ hd)).encoded, hchain.left_of_append⟩
    · rw [hframes, List.flatMap_append, List.flatMap_singleton, Delivery.frames,
        Nat.eq_zero_of_not_pos hzero, List.replicate_zero, List.append_nil]
    · rw [hrecv]
      simp

/-- Stop-and-wait delivery, in every run of a server. -/
theorem delivery_rows (h : (Server.lts config).Reach G log s) (k : ConnId) (sub : SubPtr) :
    ∃ rows, StopAndWait (connLog k log) (receivedFrom (busLog log) sub) sub rows := by
  cases hk : s.connections k with
  | none =>
    rw [connLog_eq_nil h hk]
    exact ⟨[], rfl, List.nil_prefix, by simp, by simp, .nil⟩
  | some c => exact (history_inv h sub hk).stopAndWait

end EventBus
