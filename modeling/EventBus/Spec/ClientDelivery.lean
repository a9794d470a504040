import EventBus.ForStd.Window
import EventBus.Spec.ClientStep

/-!
# Acknowledged events

The client remembers the last `maxRememberedDeliveries` IDs it has acknowledged and does not
put an event with a remembered ID on `Events()`. The filter stands before the channel. A copy
that has passed it when `Acknowledge` returns is received later, and acknowledging an ID that
is remembered already does not make it recent.

## Key results

- `ackWindow_inv`: the remembered IDs are those acknowledged last
- `acknowledged_not_exposed`: no event with an acknowledged ID is received, if no copy is under
  way when `Acknowledge` returns
- `acknowledged_copy_received`: a second copy in the channel is received
-/

namespace EventBus

/-! ## What is remembered -/

/-- The ID that a step passes to `rememberDelivery`. -/
def Client.remembers (c : Client) : ClientAction → Option Bytes
  | .call call .remember =>
    match c.calls call with
    | some (.remember id) => some id
    | _ => none
  | .readAcknowledge .remember =>
    match c.reader with
    | .acknowledge (.remember id) => some id
    | _ => none
  | _ => none

/-- The ID that a step acknowledges newly: one that was not remembered. -/
def Client.newlyAcked (c : Client) (a : ClientAction) : List Bytes :=
  (c.remembers a).toList.filter fun id => !c.wasDelivered id

/-- The runs of a client, with the IDs it acknowledges newly. -/
def Client.acknowledging : Lts Client ClientAction (ClientObs ⊕ Bytes) :=
  Client.lts.observe Client.newlyAcked

/-- The client remembers the last of the IDs `ids`. -/
structure Client.AckWindow (ids : List Bytes) (c : Client) : Prop where
  window : c.ackedIDs = ids.rtake maxRememberedDeliveries
  nodup : c.ackedIDs.Nodup
  keys : ∀ id, c.wasDelivered id = true ↔ id ∈ c.ackedIDs

section Remember

variable {c c' : Client} {id : Bytes} {ids : List Bytes}

theorem wasDelivered_iff (c : Client) (id : Bytes) : c.wasDelivered id = true ↔ id ∈ c.acked := by
  rw [Client.wasDelivered, AList.lookup_isSome]

/-- `rememberDelivery` of a remembered ID changes nothing. -/
theorem rememberDelivery_of_delivered (h : c.wasDelivered id = true) :
    c.rememberDelivery id = c := by
  simp [Client.rememberDelivery, h]

/-- `rememberDelivery` adds no other ID. -/
theorem mem_rememberDelivery {id' : Bytes} (h : id' ∈ (c.rememberDelivery id).acked) :
    id' = id ∨ id' ∈ c.acked := by
  unfold Client.rememberDelivery at h
  split at h
  · exact .inr h
  · split at h
    · split at h
      · exact (AList.mem_insert _).mp (AList.mem_erase.mp h).2
      · exact (AList.mem_insert _).mp h
    · exact .inr h

/-- `rememberDelivery` of another ID moves the window. -/
theorem Client.AckWindow.remember (h : c.AckWindow ids) (hnew : c.wasDelivered id = false) :
    (c.rememberDelivery id).AckWindow (ids ++ [id]) := by
  have hnot : id ∉ c.ackedIDs := by
    rw [← h.keys, hnew]
    simp
  have hmem : ∀ j, j ∈ c.acked ↔ j ∈ c.ackedIDs := fun j => by rw [← wasDelivered_iff, h.keys]
  unfold Client.rememberDelivery
  rw [if_neg (by simp [hnew])]
  rcases Nat.lt_or_ge ids.length maxRememberedDeliveries with hlt | hge
  · -- there is room for one more
    have hall : c.ackedIDs = ids := h.window.trans (List.rtake_of_length_le hlt.le)
    split
    · rename_i oldest rest heq
      have hlen := congrArg List.length heq
      rw [List.length_append, List.length_singleton, List.length_cons, hall] at hlen
      rw [if_neg (by omega), ← heq]
      refine ⟨?_, ?_, fun j => ?_⟩
      · rw [List.rtake_concat_of_lt hlt, ← h.window]
      · exact h.nodup.append (List.nodup_singleton _) (by simpa using hnot)
      · rw [wasDelivered_iff, AList.mem_insert, hmem, List.mem_append, List.mem_singleton, or_comm]
    · rename_i heq
      simp at heq
  · -- the window is full, and its first entry goes
    obtain ⟨y, ys, hwindow, hmoved⟩ :=
      List.rtake_concat_of_le (by decide) hge id
    rw [← h.window] at hwindow
    have hlen : ys.length + 1 = maxRememberedDeliveries := by
      have hlen := congrArg List.length (h.window.symm.trans hwindow)
      rw [List.length_rtake, List.length_cons] at hlen
      omega
    have hnodup := h.nodup
    rw [hwindow, List.nodup_cons] at hnodup
    rw [hwindow, List.mem_cons, not_or] at hnot
    simp only [hwindow, List.cons_append, List.length_append, List.length_singleton]
    rw [if_pos (by omega)]
    refine ⟨hmoved.symm, ?_, fun j => ?_⟩
    · exact hnodup.2.append (List.nodup_singleton _) (by simpa using hnot.2)
    · rw [wasDelivered_iff, AList.mem_erase, AList.mem_insert, hmem, hwindow, List.mem_cons,
        List.mem_append, List.mem_singleton]
      constructor
      · rintro ⟨hne, rfl | rfl | hj⟩
        · exact .inr rfl
        · exact absurd rfl hne
        · exact .inl hj
      · rintro (hj | rfl)
        · exact ⟨fun hjy => hnodup.1 (hjy ▸ hj), .inr (.inr hj)⟩
        · exact ⟨hnot.1, .inl rfl⟩

/-- The window depends on what is remembered only. -/
theorem Client.AckWindow.congr (h : c.AckWindow ids) (hacked : c'.acked = c.acked)
    (hids : c'.ackedIDs = c.ackedIDs) : c'.AckWindow ids where
  window := hids.trans h.window
  nodup := hids ▸ h.nodup
  keys id := by
    rw [hids, ← h.keys, wasDelivered_iff, wasDelivered_iff, hacked]

variable {a : ClientAction} {os : List ClientObs}

/-- A step changes what is remembered by `rememberDelivery` only. -/
theorem ClientEffect.remembers (h : ClientEffect c a c' os) :
    (c.remembers a = none ∧ c'.acked = c.acked ∧ c'.ackedIDs = c.ackedIDs) ∨
      ∃ id, c.remembers a = some id ∧ c'.acked = (c.rememberDelivery id).acked ∧
        c'.ackedIDs = (c.rememberDelivery id).ackedIDs := by
  cases h with
  | call hpc hm =>
    cases hm with
    | @remember id => exact .inr ⟨id, by simp [Client.remembers, hpc], rfl, rfl⟩
    | _ => exact .inl ⟨rfl, rfl, rfl⟩
  | readAcknowledge hpc hm =>
    cases hm with
    | @remember id => exact .inr ⟨id, by simp [Client.remembers, hpc], rfl, rfl⟩
    | _ => exact .inl ⟨rfl, rfl, rfl⟩
  | _ => exact .inl ⟨rfl, rfl, rfl⟩

theorem ackWindow_step (h : ClientEffect c a c' os) (hinv : c.AckWindow ids) :
    c'.AckWindow (ids ++ c.newlyAcked a) := by
  unfold Client.newlyAcked
  rcases h.remembers with ⟨hnone, hacked, hids⟩ | ⟨id, hsome, hacked, hids⟩
  · rw [hnone]
    simpa using hinv.congr hacked hids
  · rw [hsome]
    cases hdel : c.wasDelivered id with
    | true =>
      rw [rememberDelivery_of_delivered hdel] at hacked hids
      simpa [hdel] using hinv.congr hacked hids
    | false => simpa [hdel] using (hinv.remember hdel).congr hacked hids

/-- A client that has just been dialed remembers nothing. -/
theorem ackWindow_newClient : newClient.AckWindow [] :=
  ⟨rfl, List.nodup_nil, by simp [newClient, wasDelivered_iff]⟩

/-- The remembered IDs are those acknowledged last. -/
theorem ackWindow_inv {G : Client → ClientAction → Prop} {log : List (ClientObs ⊕ Bytes)}
    (h : Client.acknowledging.Reach G log c) : c.AckWindow (Lts.extra log) := by
  refine h.invariant (P := fun log c => c.AckWindow (Lts.extra log)) ?_ ?_
  · rintro _ rfl
    exact ackWindow_newClient
  · intro log c a c' os ih _ hstep
    obtain ⟨hstep, hextra⟩ := Lts.observe_step hstep
    rw [Lts.extra_append, hextra]
    exact ackWindow_step (client_step_effect hstep) ih

end Remember

/-! ## What is under way -/

/-- The event that `readLoop` is about to put on `c.events`. -/
def ReadPc.putting : ReadPc → Option Event
  | .put event => some event
  | _ => none

/-- No event with this ID has passed the filter and not been received. -/
def Client.Clear (c : Client) (id : Bytes) : Prop :=
  (∀ event ∈ c.events.buf, event.id ≠ id) ∧ ∀ event ∈ c.reader.putting, event.id ≠ id

instance (c : Client) (id : Bytes) : Decidable (c.Clear id) := inferInstanceAs (Decidable (_ ∧ _))

/-- `Acknowledge` remembers the ID when no copy is under way, and if the ID is remembered
    already then it is the last one. -/
def SettledAck (c : Client) (a : ClientAction) : Prop :=
  ∀ call id, a = .call call .remember → c.calls call = some (.remember id) →
    c.Clear id ∧ (c.wasDelivered id = true → c.ackedIDs.getLast? = some id)

section Exposed

variable {c c' : Client} {a : ClientAction} {os : List ClientObs} {id : Bytes}

theorem ReadPc.putting_eq_some {pc : ReadPc} {event : Event} (h : pc.putting = some event) :
    pc = .put event := by
  cases pc with
  | put => rw [Option.some.inj h]
  | _ => cases h

/-- A step does not let an event with a remembered ID pass, nor receive one that has not
    passed. -/
theorem clear_step (h : ClientEffect c a c' os) (hdel : c.wasDelivered id = true)
    (hclear : c.Clear id) :
    c'.Clear id ∧ ∀ event, event.id = id → .received event ∉ os := by
  obtain ⟨hbuf, hput⟩ := hclear
  have hreading : ∀ event ∈ ReadPc.putting .reading, event.id ≠ id := nofun
  cases h with
  | call hpc hm =>
    obtain ⟨pending, replies, acked, ackedIDs, heq⟩ := hm.client_eq
    refine ⟨?_, fun event _ ho => ?_⟩
    · rw [heq]
      exact ⟨hbuf, hput⟩
    · rcases List.mem_append.mp ho with ho | ho
      · rcases hm.mem_obs ho with ⟨_, heq⟩ | ⟨_, _, heq⟩ <;> exact nomatch heq
      · simp at ho
  | readAcknowledge hpc hm =>
    obtain ⟨pending, replies, acked, ackedIDs, heq⟩ := hm.client_eq
    refine ⟨?_, fun event _ ho => ?_⟩
    · rw [heq]
      refine ⟨hbuf, fun event he => ?_⟩
      rcases Client.readAcknowledgePc_cases _ with ⟨_, -, hr⟩ | hr <;>
      · rw [hr] at he
        cases he
    · rcases hm.mem_obs ho with ⟨_, heq⟩ | ⟨_, _, heq⟩ <;> exact nomatch heq
  | invoke =>
    exact ⟨⟨hbuf, hput⟩, by simp⟩
  | dispatch =>
    refine ⟨⟨hbuf, fun event he hid => ?_⟩, by simp⟩
    -- the reader takes up an event only if its ID is not remembered
    have hnew := ((Client.handled _ _).put_inv (ReadPc.putting_eq_some he)).2.2
    rw [hid, hdel] at hnew
    cases hnew
  | put hr hsend =>
    obtain ⟨-, -, hbuf', -⟩ := Chan.send_done hsend
    refine ⟨⟨?_, hreading⟩, by simp⟩
    rw [hbuf']
    -- the event that joins the buffer was in the hand of the reader
    intro event he
    rcases List.mem_append.mp he with he | he
    · exact hbuf event he
    · obtain rfl := List.mem_singleton.mp he
      exact hput event (by rw [hr]; rfl)
  | receive hrecv =>
    obtain ⟨hbuf', -⟩ := Chan.receive_some hrecv
    rw [hbuf'] at hbuf
    refine ⟨⟨fun event he => hbuf event (List.mem_cons_of_mem _ he), hput⟩, ?_⟩
    rintro event hid ho
    simp only [List.mem_singleton, ClientObs.received.injEq] at ho
    exact hbuf event (ho ▸ List.mem_cons_self) hid
  | closeEvents _ hclose =>
    have hbuf' := (Chan.close_done hclose).2.1
    exact ⟨⟨hbuf' ▸ hbuf, nofun⟩, by simp⟩
  | peerSend | closeConn | receiveShutdown => exact ⟨⟨hbuf, hput⟩, by simp⟩
  | close | readClose => exact ⟨⟨hbuf, hput⟩, by simp⟩
  | _ => exact ⟨⟨hbuf, nofun⟩, by simp⟩

/-- Where a call of `Acknowledge(id)` stands. -/
inductive AckStage (id : Bytes) : ClientPc → Prop
  | check {frame : Frame} : AckStage id (.check frame (.acknowledge id))
  | write {frame : Frame} : AckStage id (.write frame (.acknowledge id))
  | remember : AckStage id (.remember id)
  | returned {ret : ClientRet} : AckStage id (.returned ret)

theorem startAcknowledge_stage (id : Bytes) :
    AckStage id (startAcknowledge id) ∧ startAcknowledge id ≠ .returned .ok := by
  unfold startAcknowledge startSend
  split
  · exact ⟨.returned, nofun⟩
  · split
    · exact ⟨.returned, nofun⟩
    · exact ⟨.check, nofun⟩

theorem CallMove.ackStage {call : ClientCall} {b : CallAction} {pc : ClientPc} {out : CallOut}
    (h : CallMove c call b pc out) (hpc : AckStage id pc) :
    AckStage id out.pc ∧ (out.pc = .returned .ok → b = .remember ∧ pc = .remember id) := by
  cases hpc with
  | check =>
    cases h with
    | closed => exact ⟨.returned, nofun⟩
    | check => exact ⟨.write, nofun⟩
  | write =>
    cases h with
    | write => exact ⟨.remember, nofun⟩
    | writeFails => exact ⟨.returned, nofun⟩
  | remember =>
    cases h with
    | remember => exact ⟨.returned, fun _ => ⟨rfl, rfl⟩⟩
  | returned => cases h

/-- A call of `Acknowledge` stands where it should. -/
theorem ackStage_inv {G : Client → ClientAction → Prop} {log : List ClientObs}
    (h : Client.lts.Reach G log c) {call : ClientCall}
    (ho : .invoked call (.acknowledge id) ∈ log) :
    ∃ pc, c.calls call = some pc ∧ AckStage id pc := by
  have hstart : AckStage id (ClientOp.acknowledge id).start := (startAcknowledge_stage id).1
  exact Client.call_stage (Q := fun _ => AckStage id) (fun _ => hstart) (fun _ _ _ hst => hst)
    (fun _ _ _ _ _ hm hst => (hm.ackStage hst).1) h ho

/-- `Acknowledge` returns `nil` in the step in which it remembers the ID. -/
theorem acknowledge_returns {G : Client → ClientAction → Prop} {log : List ClientObs}
    (h : Client.lts.Reach G log c) {call : ClientCall}
    (ho : .invoked call (.acknowledge id) ∈ log) (hstep : c.step a = some (c', os))
    (hret : .returned call .ok ∈ os) :
    a = .call call .remember ∧ c.calls call = some (.remember id) := by
  obtain ⟨pc₀, hpc₀, hst⟩ := ackStage_inv h ho
  rcases (client_step_effect hstep).cases_call call with
    ⟨-, -, hnot, -⟩ | ⟨op, -, hnone, -, -⟩ | ⟨b, pc, out, rfl, hpc, hm, -, rfl⟩
  · exact absurd hret (hnot _)
  · rw [hnone] at hpc₀
    cases hpc₀
  · rw [hpc] at hpc₀
    cases hpc₀
    obtain ⟨-, hok⟩ := hm.returned_obs hret
    obtain ⟨rfl, rfl⟩ := (hm.ackStage hst).2 hok
    exact ⟨rfl, hpc⟩

end Exposed

/-- An acknowledged event is not exposed again, if no copy is under way when `Acknowledge`
    returns `nil` and the ID was new or the last one: as long as fewer than
    `maxRememberedDeliveries` other IDs have been newly acknowledged, no event with the ID is
    received from `Events()`. -/
theorem acknowledged_not_exposed {log₁ os log₂ : List (ClientObs ⊕ Bytes)} {c₁ c₂ c : Client}
    {a : ClientAction} {call : ClientCall} {id : Bytes}
    (h₁ : Client.acknowledging.Reach Lts.Always log₁ c₁)
    (hcall : .invoked call (.acknowledge id) ∈ Lts.inner log₁) (hsettled : SettledAck c₁ a)
    (hstep : Client.acknowledging.step c₁ a = some (c₂, os))
    (hret : .returned call .ok ∈ Lts.inner os)
    (h₂ : Client.acknowledging.Steps Lts.Always c₂ log₂ c)
    (hfew : ((Lts.extra log₂).toFinset.erase id).card < maxRememberedDeliveries)
    {event : Event} (hid : event.id = id) : .received event ∉ Lts.inner log₂ := by
  obtain ⟨hstep', hextra⟩ := Lts.observe_step hstep
  change c₁.step a = some (c₂, Lts.inner os) at hstep'
  obtain ⟨rfl, hpc⟩ := acknowledge_returns h₁.of_observe hcall hstep' hret
  obtain ⟨hclear, hlast⟩ := hsettled call id rfl hpc
  have hwin₁ := ackWindow_inv h₁
  have hwin₂ := ackWindow_step (client_step_effect hstep') hwin₁
  -- the ID is the last of those acknowledged so far
  obtain ⟨pre, hpre⟩ : ∃ pre, Lts.extra log₁ ++ c₁.newlyAcked (.call call .remember) =
      pre ++ [id] := by
    simp only [Client.newlyAcked, Client.remembers, hpc]
    cases hdel : c₁.wasDelivered id with
    | false => exact ⟨Lts.extra log₁, by simp [hdel]⟩
    | true =>
      obtain ⟨front, hfront⟩ := List.getLast?_eq_some_iff.mp (hlast hdel)
      obtain ⟨back, hback⟩ := List.rtake_suffix (Lts.extra log₁) maxRememberedDeliveries
      rw [← hwin₁.window, hfront, ← List.append_assoc] at hback
      exact ⟨back ++ front, by simp [hdel, hback]⟩
  have hclear₂ : c₂.Clear id := by
    have heff := client_step_effect hstep'
    generalize Lts.inner os = obs at heff
    cases heff with
    | call hpc' hm =>
      obtain ⟨_, _, _, _, heq⟩ := hm.client_eq
      rw [heq]
      exact hclear
  rw [hpre] at hwin₂
  have hrun := h₂.invariant (P := fun log c => c.AckWindow (pre ++ id :: Lts.extra log) ∧
    (((Lts.extra log).toFinset.erase id).card < maxRememberedDeliveries →
      c.Clear id ∧ ∀ event, event.id = id → .received event ∉ Lts.inner log)) ?_ ?_
  · exact (hrun.2 hfew).2 event hid
  · exact ⟨hwin₂, fun _ => ⟨hclear₂, by simp⟩⟩
  rintro log c a c' os ⟨hwin, hinv⟩ - hstep
  obtain ⟨hstep, hextra⟩ := Lts.observe_step hstep
  have heff : ClientEffect c a c' (Lts.inner os) := client_step_effect hstep
  refine ⟨?_, fun hfew => ?_⟩
  · rw [Lts.extra_append, hextra, ← List.cons_append, ← List.append_assoc]
    exact ackWindow_step heff hwin
  · have hfew' : ((Lts.extra log).toFinset.erase id).card < maxRememberedDeliveries := by
      refine Nat.lt_of_le_of_lt (Finset.card_le_card (Finset.erase_subset_erase _ ?_)) hfew
      rw [Lts.extra_append, List.toFinset_append]
      exact Finset.subset_union_left
    obtain ⟨hclear, hnot⟩ := hinv hfew'
    have hdel : c.wasDelivered id = true := by
      rw [hwin.keys, hwin.window]
      refine List.mem_rtake_of_few ?_ hfew'
      rw [← hwin.window]
      exact hwin.nodup
    obtain ⟨hclear', hnot'⟩ := clear_step heff hdel hclear
    refine ⟨hclear', fun event hid ho => ?_⟩
    rw [Lts.inner_append] at ho
    exact (List.mem_append.mp ho).elim (hnot event hid) (hnot' event hid)

/-! ## Runs -/

/-- An EVENT frame with the event of ID 1 and topic `t` is sent and exposed. -/
private def exposeRun : List ClientAction :=
  [.peerSend ⟨typeEvent, [0, 1, 1, 0, 0, 0, 1, 116, 0, 0, 0, 0, 0, 0]⟩, .read, .dispatch, .put]

/-- The application calls `Acknowledge` for ID 1, up to `rememberDelivery`. -/
private def acknowledgeRun : List ClientAction :=
  [.invoke 0 (.acknowledge [1]), .call 0 .check, .call 0 .write]

/-- A copy that comes after the ACK is acknowledged by `readLoop` and not received. -/
theorem acknowledged_not_exposed_retry :
    ∃ log₁ c₁ os c₂ log₂ c, Client.acknowledging.Reach Lts.Always log₁ c₁ ∧
      .invoked 0 (.acknowledge [1]) ∈ Lts.inner log₁ ∧ SettledAck c₁ (.call 0 .remember) ∧
      Client.acknowledging.step c₁ (.call 0 .remember) = some (c₂, os) ∧
      .returned 0 .ok ∈ Lts.inner os ∧ Client.acknowledging.Steps Lts.Always c₂ log₂ c ∧
      .sent ⟨typeAck, [0, 1, 1, 4, 0, 0]⟩ ∈ Lts.inner log₂ ∧
      ∀ event : Event, event.id = [1] → .received event ∉ Lts.inner log₂ := by
  obtain ⟨⟨c₁, log₁⟩, hrun₁, hcall, hpc, hclear, hnew, ⟨c₂, os⟩, hstep, hret, ⟨c, log₂⟩, hrun₂,
      hsent, hfew⟩ :
      ∃ r ∈ Client.acknowledging.runWhere Lts.Always newClient
          (.dial [] :: exposeRun ++ .receive :: acknowledgeRun),
        .invoked 0 (.acknowledge [1]) ∈ Lts.inner r.2 ∧ r.1.calls 0 = some (.remember [1]) ∧
        r.1.Clear [1] ∧ r.1.wasDelivered [1] = false ∧
        ∃ q ∈ Client.acknowledging.step r.1 (.call 0 .remember),
          .returned 0 .ok ∈ Lts.inner q.2 ∧
          ∃ t ∈ Client.acknowledging.runWhere Lts.Always q.1
              (exposeRun.dropLast ++ [ClientAction.readAcknowledge .check, .readAcknowledge .write,
                .readAcknowledge .remember]),
            .sent ⟨typeAck, [0, 1, 1, 4, 0, 0]⟩ ∈ Lts.inner t.2 ∧
            ((Lts.extra t.2).toFinset.erase [1]).card < maxRememberedDeliveries := by decide
  have h₁ : Client.acknowledging.Reach Lts.Always log₁ c₁ :=
    ⟨_, rfl, Lts.steps_of_runWhere _ _ _ _ hrun₁⟩
  have h₂ := Lts.steps_of_runWhere _ _ _ _ hrun₂
  have hsettled : SettledAck c₁ (.call 0 .remember) := by
    intro call id ha hpc'
    cases ha
    rw [hpc] at hpc'
    cases hpc'
    exact ⟨hclear, by simp [hnew]⟩
  exact ⟨log₁, c₁, os, c₂, log₂, c, h₁, hcall, hsettled, hstep, hret, h₂, hsent, fun event hid =>
    acknowledged_not_exposed h₁ hcall hsettled hstep hret h₂ hfew hid⟩

/-- A retry and its first copy are both on `c.events` when `Acknowledge` returns `nil`. The
    application receives the second one although no other ID has been acknowledged. -/
theorem acknowledged_copy_received :
    ∃ log₁ c₁ os c₂ log₂ c, Client.acknowledging.Reach Lts.Always log₁ c₁ ∧
      .invoked 0 (.acknowledge [1]) ∈ Lts.inner log₁ ∧
      .received ⟨[1], [], [116], [], []⟩ ∈ Lts.inner log₁ ∧
      Client.acknowledging.step c₁ (.call 0 .remember) = some (c₂, os) ∧
      .returned 0 .ok ∈ Lts.inner os ∧ Client.acknowledging.Steps Lts.Always c₂ log₂ c ∧
      Lts.extra log₂ = [] ∧ .received ⟨[1], [], [116], [], []⟩ ∈ Lts.inner log₂ := by
  obtain ⟨⟨c₁, log₁⟩, hrun₁, hcall, hrecv, ⟨c₂, os⟩, hstep, hret, ⟨c, log₂⟩, hrun₂, hnone,
      hagain⟩ :
      ∃ r ∈ Client.acknowledging.runWhere Lts.Always newClient
          (.dial [] :: exposeRun ++ exposeRun ++ .receive :: acknowledgeRun),
        .invoked 0 (.acknowledge [1]) ∈ Lts.inner r.2 ∧
        .received ⟨[1], [], [116], [], []⟩ ∈ Lts.inner r.2 ∧
        ∃ q ∈ Client.acknowledging.step r.1 (.call 0 .remember),
          .returned 0 .ok ∈ Lts.inner q.2 ∧
          ∃ t ∈ Client.acknowledging.runWhere Lts.Always q.1 [.receive],
            Lts.extra t.2 = [] ∧ .received ⟨[1], [], [116], [], []⟩ ∈ Lts.inner t.2 := by decide
  exact ⟨log₁, c₁, os, c₂, log₂, c, ⟨_, rfl, Lts.steps_of_runWhere _ _ _ _ hrun₁⟩, hcall, hrecv,
    hstep, hret, Lts.steps_of_runWhere _ _ _ _ hrun₂, hnone, hagain⟩

end EventBus
