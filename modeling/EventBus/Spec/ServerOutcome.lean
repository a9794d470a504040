import EventBus.Spec.ServerQuiet

/-!
# What graceful shutdown delivers

A delivery goroutine ends when `deliver` has given up on an event, or when it has received
everything from the channel of its subscription and the channel is closed. In the second case
the channel is `Exhausted`, now and for ever, so what was delivered is all that the queue was
ever given. When `gracefulClose` has written its SHUTDOWN frame every delivery goroutine of
the connection has ended in one of these two ways.

## Key results

- `outcome_inv`: what has become of the events that a delivery goroutine received
- `told_outcome`: how the delivery goroutines behind a SHUTDOWN frame have ended
-/

namespace EventBus

/-! ## Exhausted channels -/

/-- The channel of `sub` is closed and empty. -/
def Bus.Exhausted (w : Bus) (sub : SubPtr) : Prop :=
  ∃ subscription, w.subs[sub]? = some subscription ∧ subscription.events.closed = true ∧
    subscription.events.buf = []

section Exhausted

variable {config : Config} {w w' : Bus} {a : Action} {os log : List Obs} {sub : SubPtr}

/-- Nothing enters or leaves an exhausted channel. -/
theorem Effect.exhausted (h : Effect w a w' os) (hex : w.Exhausted sub) :
    w'.Exhausted sub ∧ given os sub = [] ∧ taken os sub = [] := by
  obtain ⟨subscription, hs, hclosed, hbuf⟩ := hex
  obtain ⟨subscription', hs', hlater⟩ := h.later sub subscription hs
  have hgiven : given os sub = [] := given_eq_nil fun x route ho =>
    (h.put_mem ho).1 ⟨subscription, hs, hclosed⟩
  have hqueue := h.queue sub
  rw [Bus.queue_of hs, hbuf, hgiven, Bus.queue_of hs'] at hqueue
  obtain ⟨htaken, hbuf'⟩ := List.append_eq_nil_iff.mp hqueue.symm
  exact ⟨⟨subscription', hs', hlater.ended hclosed, hbuf'⟩, hgiven, htaken⟩

theorem BusStep.exhausted {b : Option Action} (h : BusStep w b w' os) (hex : w.Exhausted sub) :
    w'.Exhausted sub := by
  cases b with
  | none => exact h.1 ▸ hex
  | some b => exact ((step_effect h).exhausted hex).1

/-- What was put in an exhausted channel was taken from it. -/
theorem Bus.Exhausted.given_eq_taken {G : Bus → Action → Prop} (hex : w.Exhausted sub)
    (h : (Bus.lts config).Reach G log w) : given log sub = taken log sub := by
  obtain ⟨subscription, hs, -, hbuf⟩ := hex
  rw [given_eq h, Bus.queue_of hs, hbuf, List.append_nil]

/-- What was taken from a channel was received, unless `s.close(false)` discarded it. -/
theorem taken_of_not_discarded (h : ∀ x, .discarded sub x ∉ log) :
    taken log sub = receivedFrom log sub := by
  refine List.filterMap_congr fun o ho => ?_
  cases o with
  | discarded s x =>
    have hne : s ≠ sub := fun heq => h x (heq ▸ ho)
    simp [hne]
  | _ => rfl

end Exhausted

/-! ## The outcome of a delivery goroutine -/

/-- The events for which `deliver` has returned `true`. -/
def deliveredOk (sub : SubPtr) (L : List ConnObs) : List Copy :=
  L.filterMap fun
    | .delivered sub' x true => if sub' = sub then some x else none
    | _ => none

@[simp] theorem deliveredOk_append (sub : SubPtr) (L obs : List ConnObs) :
    deliveredOk sub (L ++ obs) = deliveredOk sub L ++ deliveredOk sub obs :=
  List.filterMap_append

theorem deliveredOk_eq_nil {sub : SubPtr} {L : List ConnObs}
    (h : ∀ x ok, .delivered sub x ok ∉ L) : deliveredOk sub L = [] := by
  refine List.filterMap_eq_nil_iff.mpr fun o ho => ?_
  split
  · exact if_neg fun heq => h _ _ (heq ▸ ho)
  · rfl

/-- The goroutine has not left its loop. -/
def DeliverPc.looping : DeliverPc → Bool
  | .ending | .ended => false
  | _ => true

/-- The event that the goroutine has received and `deliver` has not returned for. -/
def DeliverPc.inHand : DeliverPc → List Copy
  | .registering x | .sending x _ _ _ | .waiting x _ _ _ | .leaving x _ => [x]
  | _ => []

/-- What has become of the events `recv` that the delivery goroutine of `sub` has received. -/
inductive DeliverOutcome (L : List ConnObs) (recv : List Copy) (w : Bus) (sub : SubPtr) :
    Option DeliverPc → Prop
  | unborn : (∀ x ok, .delivered sub x ok ∉ L) → DeliverOutcome L recv w sub none
  | looping {pc : DeliverPc} : pc.looping = true → (∀ x, .delivered sub x false ∉ L) →
      recv = deliveredOk sub L ++ pc.inHand → DeliverOutcome L recv w sub (some pc)
  | gaveUp {pc : DeliverPc} {x : Copy} : pc.looping = false → .delivered sub x false ∈ L →
      recv = deliveredOk sub L ++ [x] → DeliverOutcome L recv w sub (some pc)
  | exhausted {pc : DeliverPc} : pc.looping = false → (∀ x, .delivered sub x false ∉ L) →
      recv = deliveredOk sub L → w.Exhausted sub → DeliverOutcome L recv w sub (some pc)

section Outcome

variable {s s' : Server} {c : Connection} {L obs : List ConnObs} {recv new : List Copy} {w w' : Bus}
  {b : Option Action} {bos : List Obs} {sub : SubPtr} {pc : Option DeliverPc}

theorem not_delivered_append {o : ConnObs} (h : o ∉ L) (hobs : o ∉ obs) : o ∉ L ++ obs :=
  fun ho => (List.mem_append.mp ho).elim h hobs

/-- The goroutine of `sub` stays where it is. -/
theorem DeliverOutcome.stay (h : DeliverOutcome L recv w sub pc) (hb : BusStep w b w' bos)
    (hobs : ∀ x ok, .delivered sub x ok ∉ obs) (hnew : pc ≠ none → new = []) :
    DeliverOutcome (L ++ obs) (recv ++ new) w' sub pc := by
  have hok : deliveredOk sub (L ++ obs) = deliveredOk sub L := by
    rw [deliveredOk_append, deliveredOk_eq_nil hobs, List.append_nil]
  cases h with
  | unborn hnone => exact .unborn fun x ok => not_delivered_append (hnone x ok) (hobs x ok)
  | looping hloop hkept hrecv =>
    refine .looping hloop (fun x => not_delivered_append (hkept x) (hobs x false)) ?_
    rw [hok, hnew (Option.some_ne_none _), List.append_nil, hrecv]
  | gaveUp hloop hmem hrecv =>
    refine .gaveUp hloop (List.mem_append_left _ hmem) ?_
    rw [hok, hnew (Option.some_ne_none _), List.append_nil, hrecv]
  | exhausted hloop hkept hrecv hex =>
    refine .exhausted hloop (fun x => not_delivered_append (hkept x) (hobs x false)) ?_
      (hb.exhausted hex)
    rw [hok, hnew (Option.some_ne_none _), List.append_nil, hrecv]

/-- A goroutine in its loop goes on with the event it has in hand. -/
theorem DeliverOutcome.go {pc pc' : DeliverPc} (h : DeliverOutcome L recv w sub (some pc))
    (hloop : pc.looping = true) (hloop' : pc'.looping = true) (hhand : pc'.inHand = pc.inHand)
    (hobs : ∀ x ok, .delivered sub x ok ∉ obs) :
    DeliverOutcome (L ++ obs) (recv ++ []) w' sub (some pc') := by
  cases h with
  | looping _ hkept hrecv =>
    refine .looping hloop' (fun x => not_delivered_append (hkept x) (hobs x false)) ?_
    rw [List.append_nil, deliveredOk_append, deliveredOk_eq_nil hobs, List.append_nil, hhand, hrecv]
  | gaveUp hnot | exhausted hnot =>
    rw [hloop] at hnot
    cases hnot

theorem inHand_nextAttempt (x : Copy) (payload : Bytes) (ch : AckChan) (n : Nat) :
    (Connection.nextAttempt x payload ch n).looping = true ∧
      (Connection.nextAttempt x payload ch n).inHand = [x] := by
  unfold Connection.nextAttempt
  split <;> exact ⟨rfl, rfl⟩

/-- A step of the goroutine keeps account of the events it has received. -/
private theorem DeliverMove.outcome {a : ConnAction} {pc pc' : DeliverPc} {bus : Option Action}
    (hm : DeliverMove s c sub a pc pc' bus obs) (hb : BusStep s.bus bus s'.bus bos)
    (h : DeliverOutcome L recv s.bus sub (some pc)) :
    DeliverOutcome (L ++ obs) (recv ++ receivedFrom bos sub) s'.bus sub (some pc') := by
  cases hm with
  | receive hs hrecv =>
    cases h with
    | looping _ hkept heq =>
      refine .looping rfl (by simpa using hkept) ?_
      rw [hb.receive hs hrecv, heq, List.append_nil]
      simp [DeliverPc.inHand]
    | gaveUp hnot | exhausted hnot => cases hnot
  | receiveEnd hs hbuf hclosed =>
    have hex : s.bus.Exhausted sub := ⟨_, hs, hclosed, hbuf⟩
    have hnew : receivedFrom bos sub = [] := by
      have htaken := ((step_effect hb).exhausted hex).2.2
      have hsub := receivedFrom_sublist bos sub
      rw [htaken] at hsub
      exact List.sublist_nil.mp hsub
    cases h with
    | looping _ hkept heq =>
      refine .exhausted rfl (by simpa using hkept) ?_ (hb.exhausted hex)
      rw [hnew, List.append_nil, List.append_nil, heq]
      simp [DeliverPc.inHand]
    | gaveUp hnot | exhausted hnot => cases hnot
  | @encodeFails x =>
    cases h with
    | looping _ _ heq =>
      refine .gaveUp rfl (List.mem_append_right _ (List.mem_singleton.mpr rfl)) ?_
      rw [hb.receivedFrom_nil (by simp), List.append_nil, heq]
      simp [deliveredOk, DeliverPc.inHand]
    | gaveUp hnot | exhausted hnot => cases hnot
  | send | sendFails =>
    rw [hb.receivedFrom_nil (by simp)]
    exact h.go rfl rfl rfl (by simp)
  | timeout =>
    rw [hb.receivedFrom_nil (by simp)]
    obtain ⟨hloop, hhand⟩ := inHand_nextAttempt _ _ _ _
    exact h.go rfl hloop hhand (by simp)

/-- A step of the connection keeps account of the events of each of its goroutines. -/
private theorem DeliveryStep.outcome {a : ConnAction} {pc' : Option DeliverPc} {bus : Option Action}
    (hd : DeliveryStep s c sub a pc pc' bus obs) (hb : BusStep s.bus bus s'.bus bos)
    (hspawn : c.serve = .subscribeSpawn sub → pc = none ∧ recv = [])
    (h : DeliverOutcome L recv s.bus sub pc) :
    DeliverOutcome (L ++ obs) (recv ++ receivedFrom bos sub) s'.bus sub pc' := by
  cases hd with
  | other hbus hobs =>
    exact h.stay hb (fun x ok ho => hobs _ ho rfl) fun _ => hb.receivedFrom_nil hbus
  | move hm => exact hm.outcome hb h
  | spawn hpc =>
    obtain ⟨rfl, rfl⟩ := hspawn hpc
    cases h with
    | unborn hnot =>
      rw [hb.2]
      refine .looping rfl (by simpa using fun x => hnot x false) ?_
      simp [deliveredOk_eq_nil hnot, DeliverPc.inHand, receivedFrom]
  | register =>
    rw [hb.2]
    exact h.go rfl rfl rfl (by simp)
  | @acknowledged x payload ch attempt =>
    rw [hb.2]
    obtain ⟨hloop, hhand⟩ := inHand_nextAttempt x payload ch attempt
    split
    · exact h.go rfl rfl rfl (by simp)
    · exact h.go rfl hloop hhand (by simp)
  | @leave x ok =>
    rw [hb.2]
    cases h with
    | looping _ hkept hrecv =>
      cases ok with
      | true =>
        refine .looping rfl (fun x => not_delivered_append (hkept x) (by simp)) ?_
        rw [hrecv]
        simp [deliveredOk, DeliverPc.inHand, receivedFrom]
      | false =>
        refine .gaveUp rfl (List.mem_append_right _ (List.mem_singleton.mpr rfl)) ?_
        rw [hrecv]
        simp [deliveredOk, DeliverPc.inHand, receivedFrom]
    | gaveUp hnot | exhausted hnot => cases hnot
  | ended =>
    rw [hb.2, List.append_nil]
    have hbus : s'.bus = s.bus := hb.1
    cases h with
    | looping hnot => cases hnot
    | gaveUp _ hmem hrecv => exact .gaveUp rfl hmem (by simp [hrecv, receivedFrom])
    | exhausted _ hkept hrecv hex =>
      exact .exhausted rfl hkept (by simp [hrecv, receivedFrom]) (hbus ▸ hex)

end Outcome

section Run

variable {config : Config} {G : Server → ServerAction → Prop} {log : List ServerObs} {s : Server}
  {k : ConnId} {c : Connection}

/-- What has become of the events that the delivery goroutine of `sub` has received. -/
theorem outcome_inv (h : (Server.lts config).Reach G log s) (sub : SubPtr)
    (hc : s.connections k = some c) :
    DeliverOutcome (connLog k log) (receivedFrom (busLog log) sub) s.bus sub
      (c.deliveries sub) := by
  refine Server.delivery_induct h sub hc (I := fun L recv w pc => DeliverOutcome L recv w sub pc)
    (fun _ _ => .unborn (by simp)) ?_ fun hd hb _ => hd.outcome hb
  intro L recv new w b w' os pc hb hnew hout
  have hstay : DeliverOutcome (L ++ []) (recv ++ new) w' sub pc := hout.stay hb (by simp) hnew
  rwa [List.append_nil] at hstay

/-- The delivery goroutines of a connection behind its SHUTDOWN frame. -/
theorem told_ended {frame : Frame} {sub : SubPtr} (h : (Server.lts config).Reach G log s)
    (hc : s.connections k = some c) (htold : .conn k (.wrote .graceful frame) ∈ log)
    (hd : c.deliveries sub ≠ none) : c.deliveries sub = some .ended := by
  have hquiet := (shutting_inv h hc).told frame (mem_connLog.mpr htold)
  obtain ⟨pc, hpc⟩ := Option.ne_none_iff_exists'.mp hd
  by_contra hne
  exact hquiet.ended sub ⟨pc, hpc, fun heq => hne (heq ▸ hpc)⟩

/-- Every delivery goroutine behind a SHUTDOWN frame has ended: with an event that `deliver`
    gave up, all those before it having been delivered, or with everything delivered that it
    received and its channel exhausted. -/
theorem told_outcome {frame : Frame} {sub : SubPtr} (h : (Server.lts config).Reach G log s)
    (hc : s.connections k = some c) (htold : .conn k (.wrote .graceful frame) ∈ log)
    (hd : c.deliveries sub ≠ none) :
    (∃ x, .delivered sub x false ∈ connLog k log ∧
        receivedFrom (busLog log) sub = deliveredOk sub (connLog k log) ++ [x]) ∨
      ((∀ x, .delivered sub x false ∉ connLog k log) ∧
        receivedFrom (busLog log) sub = deliveredOk sub (connLog k log) ∧ s.bus.Exhausted sub) := by
  have hout := outcome_inv h sub hc
  rw [told_ended h hc htold hd] at hout
  cases hout with
  | looping hnot => cases hnot
  | gaveUp _ hmem hrecv => exact .inl ⟨_, hmem, hrecv⟩
  | exhausted _ hkept hrecv hex => exact .inr ⟨hkept, hrecv, hex⟩

end Run

end EventBus
