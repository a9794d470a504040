import EventBus.Spec.SessionPublish

/-!
# The reader and the channels of PublishWithResult

`readLoop` sends an ACK to the channel that it finds in `c.pending` under the ACK's ID, and it
does so with nothing to stop it but room in the channel, which holds one ACK. The server
answers each PUBLISH frame at most once, so a channel is found twice only if a message ID is
used again before the frames that used it have been answered. Then the second ACK meets a full
channel, and if the call has left by then `readLoop` waits for ever.

## Key results

- `acks_le_sent`: no more ACKs with an ID are read than PUBLISH frames were sent
- `reply_never_blocks`: the reader does not wait, if an ID is used again only when it has been
  answered
- `reader_hangs`: a retry after a timeout
-/

namespace EventBus

variable {config : Config} {k : ConnId} {G : Session → SessionAction → Prop}
  {log os : List ClientObs} {s : Session} {call : ClientCall} {ch : ReplyChan} {event : Event}
  {id : Bytes} {ack : AckMessage} {c c' : Client} {a : ClientAction}

/-! ## ACKs and PUBLISH frames -/

/-- The IDs in the ACK frames that `readLoop` has read. -/
def ackIDsRead (log : List ClientObs) : List Bytes :=
  (log.filterMap ClientObs.read?).filterMap ackIDOf

@[simp] theorem ackIDsRead_append (log os : List ClientObs) :
    ackIDsRead (log ++ os) = ackIDsRead log ++ ackIDsRead os := by
  simp [ackIDsRead]

/-- The IDs of the messages that the client has sent. -/
def sentIDs (log : List ClientObs) : List Bytes := (sentPublishes log).map PublishMessage.id

@[simp] theorem sentIDs_append (log os : List ClientObs) :
    sentIDs (log ++ os) = sentIDs log ++ sentIDs os := by
  simp [sentIDs]

/-- No more ACKs with an ID are read than PUBLISH frames with it were sent. -/
theorem acks_le_sent {log : List SessionObs} (h : (Session.lts config k).Reach G log s)
    (id : Bytes) :
    (ackIDsRead (clientLog log)).count id ≤ (sentIDs (clientLog log)).count id := by
  have hread : (ackIDsRead (clientLog log)).Sublist
      (ackIDsWritten (connLog k (serverLog log))) := by
    unfold ackIDsWritten ackIDsRead
    rw [(wire_inv h).toClient, List.filterMap_append]
    exact List.sublist_append_left _ _
  have hpub : ((publishings (connLog k (serverLog log))).map (·.1.id)).Sublist
      (sentIDs (clientLog log)) := by
    have hsent := (published_sent h).map PublishMessage.id
    rwa [List.map_map] at hsent
  exact ((hread.trans (acks_published (Session.reach_server h) k)).trans hpub).count_le id

/-- The ID in the ACK frame that `readLoop` has in hand. -/
def ReadPc.ackInHand : ReadPc → List Bytes
  | .handle frame => (ackIDOf frame).toList
  | _ => []

/-- Every PUBLISH frame with this ID has been answered by an ACK that `readLoop` has looked
    up in `c.pending`. -/
def Client.Settled (log : List ClientObs) (c : Client) (id : Bytes) : Prop :=
  (sentIDs log).count id + c.reader.ackInHand.count id ≤ (ackIDsRead log).count id

/-- The call has registered an event with this ID and may still write its frame. -/
def Client.Unsent (log : List ClientObs) (c : Client) (call : ClientCall) (id : Bytes) : Prop :=
  ∃ ch event pc, .registered call ch event ∈ log ∧ event.id = id ∧ c.calls call = some pc ∧
    pc.past = false

/-- An ACK is in the channel or on its way there. -/
def Client.Used (c : Client) (ch : ReplyChan) : Prop :=
  (∃ chan ack, c.replies[ch]? = some chan ∧ ack ∈ chan.buf) ∨ ∃ ack, c.reader = .reply ch ack

/-! ## One step -/

/-- The event that a step registers. -/
def Client.registers (c : Client) : ClientAction → Option Event
  | .call call .register =>
    match c.calls call with
    | some (.register _ event) => some event
    | _ => none
  | _ => none

theorem ClientEffect.registers (h : ClientEffect c a c' os) (hinv : c.ReplyInv log)
    (ho : .registered call ch event ∈ os) :
    c.registers a = some event ∧ c'.pending.lookup event.id = some ch ∧
      sentPublishes os = [] ∧ c'.reader = c.reader := by
  cases h with
  | @call call' b pc out hpc hm =>
    have ho' := (List.mem_append.mp ho).resolve_right
      (Client.not_registered_returnObs call' out.pc call ch event)
    obtain ⟨⟨ctx, rfl, rfl⟩, rfl, rfl⟩ := hm.registered ho'
    cases hm with
    | register =>
      refine ⟨by simp [Client.registers, hpc], ?_, ?_, rfl⟩
      · show (c.pending.insert event.id c.replies.length).lookup event.id = _
        rw [AList.lookup_insert]
      · show sentPublishes ([_] ++ Client.returnObs _ _) = []
        rw [sentPublishes_append]
        unfold Client.registerCall
        dsimp only
        split <;> rfl
  | readAcknowledge hr hm => exact absurd ho ((hm.plain (hinv.acknowledging _ hr)).2 call ch event)
  | invoke => simp at ho
  | _ => simp at ho

/-- A step looks up ACKs that have been read, and takes none back. -/
theorem ReplyStep.looked (h : ReplyStep c c' os) (id : Bytes) :
    c'.reader.ackInHand.count id ≤ c.reader.ackInHand.count id + (ackIDsRead os).count id := by
  by_cases hhandle : ∃ frame, c'.reader = .handle frame
  · obtain ⟨frame, hr⟩ := hhandle
    rcases h.handled frame hr with hold | hread
    · rw [hr, hold]
      exact Nat.le_add_right _ _
    · have hsub : (ackIDOf frame).toList.Sublist (ackIDsRead os) := by
        have hmem : frame ∈ os.filterMap ClientObs.read? := List.mem_filterMap.mpr ⟨_, hread, rfl⟩
        have hone := (List.singleton_sublist.mpr hmem).filterMap ackIDOf
        rw [List.filterMap_cons] at hone
        split at hone <;> simp_all [ackIDsRead]
      rw [hr]
      exact Nat.le_trans (hsub.count_le id) (Nat.le_add_left _ _)
  · have hnone : c'.reader.ackInHand = [] := by
      cases hr : c'.reader with
      | handle frame => exact absurd ⟨frame, hr⟩ hhandle
      | _ => rfl
    rw [hnone]
    exact Nat.zero_le _

/-- A call that may still write its frame has registered just now, or might before. -/
theorem ClientEffect.unsent (h : ClientEffect c a c' os) (hinv : c.ReplyInv log)
    (hu : c'.Unsent (log ++ os) call id) :
    c.Unsent log call id ∨ ∃ ch event, .registered call ch event ∈ os ∧ event.id = id := by
  obtain ⟨ch, event, pc', hreg, hid, hpc', hpast'⟩ := hu
  rcases List.mem_append.mp hreg with hold | hnew
  · left
    obtain ⟨pc, hpc⟩ := Option.ne_none_iff_exists'.mp (hinv.made call ch event hold).2
    refine ⟨ch, event, pc, hold, hid, hpc, ?_⟩
    by_contra hpast
    obtain ⟨pc'', hpc'', hpast''⟩ := h.past hpc (by simpa using hpast)
    rw [hpc', Option.some.injEq] at hpc''
    rw [hpc'', hpast''] at hpast'
    cases hpast'
  · exact .inr ⟨ch, event, hnew, hid⟩

/-- A step writes no PUBLISH frame with this ID, or the one of a call that might still write
    it and now may not. -/
theorem ClientEffect.sent (h : ClientEffect c a c' os) (hinv : c.ReplyInv log) (id : Bytes) :
    (sentIDs os).count id = 0 ∨ ((sentIDs os).count id = 1 ∧
      ∃ call, c.Unsent log call id ∧ ¬c'.Unsent (log ++ os) call id) := by
  by_cases hmem : id ∈ sentIDs os
  · right
    obtain ⟨m, hm, rfl⟩ := List.mem_map.mp hmem
    obtain ⟨call, ch, event, pc, pc', hreg, hmsg, hone, hpc, hpast, hpc', hpast'⟩ := h.sends hinv hm
    refine ⟨by simp [sentIDs, hone], call,
      ⟨ch, event, pc, hreg, by rw [← hmsg]; rfl, hpc, hpast⟩, ?_⟩
    rintro ⟨_, _, pc'', -, -, hpc'', hpast''⟩
    rw [hpc', Option.some.injEq] at hpc''
    rw [← hpc'', hpast'] at hpast''
    exact nomatch hpast''
  · exact .inl (List.count_eq_zero.mpr hmem)

/-- A channel is used after a step if it was before, or was just found under the ID of the ACK
    in hand. -/
theorem ReplyStep.used (h : ReplyStep c c' os) (hu : c'.Used ch) :
    c.Used ch ∨ ∃ frame ack, c.reader = .handle frame ∧ ackIDOf frame = some ack.id ∧
      c.pending.lookup ack.id = some ch ∧ c'.reader = .reply ch ack := by
  rcases hu with ⟨chan, ack, hch, hack⟩ | ⟨ack, hr⟩
  · rcases h.buffered ch chan ack hch hack with hr | ⟨chan', hch', hack'⟩
    · exact .inl (.inr ⟨ack, hr⟩)
    · exact .inl (.inl ⟨chan', ack, hch', hack'⟩)
  · rcases h.replying ch ack hr with hold | ⟨frame, hpc, htype, hdec, hl⟩
    · exact .inl (.inr ⟨ack, hold⟩)
    · exact .inr ⟨frame, ack, hpc, ackIDOf_eq_some htype hdec, hl, hr⟩

/-- While `readLoop` has an ACK for a channel, nothing enters a channel. -/
theorem ClientEffect.buffered_of_reply (h : ClientEffect c a c' os)
    (hr : c'.reader = .reply ch ack) {ch' : ReplyChan} {chan : Chan AckMessage}
    {ack' : AckMessage} (hch : c'.replies[ch']? = some chan) (hack : ack' ∈ chan.buf) :
    ∃ chan, c.replies[ch']? = some chan ∧ ack' ∈ chan.buf := by
  cases h with
  | call _ hm => exact hm.buffered hch hack
  | readAcknowledge _ hm => exact hm.buffered hch hack
  | reply => cases hr
  | _ => exact ⟨chan, hch, hack⟩

/-- The channels of `PublishWithResult` hold one ACK and are never closed. -/
theorem ClientEffect.made_one (h : ClientEffect c a c' os)
    (hinv : ∀ chan ∈ c.replies, chan.cap = 1 ∧ chan.closed = false) :
    ∀ chan ∈ c'.replies, chan.cap = 1 ∧ chan.closed = false := by
  have hcall : ∀ {call b pc out}, CallMove c call b pc out →
      ∀ chan ∈ out.client.replies, chan.cap = 1 ∧ chan.closed = false := by
    intro call b pc out hm chan hchan
    cases hm with
    | register =>
      rcases List.mem_append.mp hchan with hold | hnew
      · exact hinv chan hold
      · rw [List.mem_singleton.mp hnew]
        exact ⟨rfl, rfl⟩
    | acknowledged hch hrecv =>
      rcases List.mem_or_eq_of_mem_set hchan with hold | rfl
      · exact hinv chan hold
      · obtain ⟨-, hcap, hclosed⟩ := Chan.receive_some hrecv
        rw [hcap, hclosed]
        exact hinv _ (List.mem_of_getElem? hch)
    | @remember eventID =>
      obtain ⟨_, _, heq⟩ := c.rememberDelivery_eq eventID
      rw [heq] at hchan
      exact hinv chan hchan
    | _ => exact hinv chan hchan
  cases h with
  | call _ hm => exact hcall hm
  | readAcknowledge _ hm => exact hcall hm
  | reply _ hch hsend =>
    intro chan hchan
    rcases List.mem_or_eq_of_mem_set hchan with hold | rfl
    · exact hinv chan hold
    · obtain ⟨-, -, -, hcap, hclosed⟩ := Chan.send_done hsend
      rw [hcap]
      exact ⟨(hinv _ (List.mem_of_getElem? hch)).1, hclosed⟩
  | _ => exact hinv

/-! ## The channels are empty when they are found -/

/-- Nothing is outstanding under this ID: no call may still write a frame with it, and every
    frame with it has been answered. -/
def Client.Fresh (log : List ClientObs) (c : Client) (id : Bytes) : Prop :=
  c.Settled log id ∧ ∀ call, ¬c.Unsent log call id

/-- At most one answer is outstanding under each ID, and none if a channel is used that is
    entered under it. -/
structure Client.AnswerInv (log : List ClientObs) (c : Client) : Prop where
  owed : ∀ id, (sentIDs log).count id + c.reader.ackInHand.count id ≤
    (ackIDsRead log).count id + 1
  unsent : ∀ id call, c.Unsent log call id → c.Settled log id
  once : ∀ id call call', c.Unsent log call id → c.Unsent log call' id → call = call'
  used : ∀ id ch, c.pending.lookup id = some ch → c.Used ch → c.Fresh log id
  empty : ∀ ch ack chan, c.reader = .reply ch ack → c.replies[ch]? = some chan → chan.buf = []

theorem Client.Settled.step (h : c.Settled log id) (hs : ReplyStep c c' os)
    (hnone : (sentIDs os).count id = 0) : c'.Settled (log ++ os) id := by
  have hlooked := hs.looked id
  unfold Client.Settled at h ⊢
  rw [sentIDs_append, ackIDsRead_append, List.count_append, List.count_append]
  omega

/-- A channel that has been made is one that was registered. -/
theorem Client.ReplyInv.used_lt (h : c.ReplyInv log) (hu : c.Used ch) :
    ch < c.replies.length := by
  have hrouted : ∀ ack, Routed log ch ack → ch < c.replies.length := by
    rintro ack ⟨-, call, event, hreg, -⟩
    exact (h.made call ch event hreg).1
  rcases hu with ⟨chan, ack, hch, hack⟩ | ⟨ack, hr⟩
  · exact hrouted ack (h.buffered ch chan ack hch hack)
  · exact hrouted ack (h.replying ch ack hr)

/-- A channel is entered under one ID. -/
theorem Client.ReplyInv.pending_unique {id' : Bytes} (h : c.ReplyInv log)
    (hl : c.pending.lookup id = some ch) (hl' : c.pending.lookup id' = some ch) : id = id' := by
  obtain ⟨call, event, hreg, rfl⟩ := h.pending id ch hl
  obtain ⟨call', event', hreg', rfl⟩ := h.pending id' ch hl'
  rw [(h.unique call call' ch event event' hreg hreg').2]

/-- An ACK in hand is one that is still due, so nothing else is outstanding under its ID. -/
theorem Client.AnswerInv.inHand {frame : Frame} (h : c.AnswerInv log)
    (hle : (ackIDsRead log).count id ≤ (sentIDs log).count id) (hr : c.reader = .handle frame)
    (hid : ackIDOf frame = some id) :
    (sentIDs log).count id ≤ (ackIDsRead log).count id ∧ ¬c.Settled log id := by
  have hone : c.reader.ackInHand.count id = 1 := by simp [hr, ReadPc.ackInHand, hid]
  have howed := h.owed id
  unfold Client.Settled
  omega

/-- A step that registers no call under an ID leaves its channel used only if nothing is
    outstanding under it. -/
private theorem Client.AnswerInv.used_step (h : c.AnswerInv log) (hreply : c.ReplyInv log)
    (heff : ClientEffect c a c' os)
    (hle : ∀ id, (ackIDsRead log).count id ≤ (sentIDs log).count id)
    (hreg : ¬∃ call ch' event, .registered call ch' event ∈ os ∧ event.id = id)
    (hl : c'.pending.lookup id = some ch) (hu : c'.Used ch) : c'.Fresh (log ++ os) id := by
  have hs := heff.replyStep hreply.acknowledging
  have hunsent : ∀ call, c'.Unsent (log ++ os) call id → c.Unsent log call id := by
    intro call hun
    rcases heff.unsent hreply hun with hold | ⟨ch', event, ho, hid⟩
    · exact hold
    · exact absurd ⟨call, ch', event, ho, hid⟩ hreg
  -- a frame with the ID is sent only for a call that has not sent one
  have hsent : (∀ call, ¬c.Unsent log call id) → (sentIDs os).count id = 0 := by
    intro hnone
    rcases heff.sent hreply id with hzero | ⟨-, call, hun, -⟩
    · exact hzero
    · exact absurd hun (hnone call)
  have hl : c.pending.lookup id = some ch := by
    rcases hs.pending id ch hl with hold | ⟨call, event, ho, hid⟩
    · exact hold
    · exact absurd ⟨call, ch, event, ho, hid⟩ hreg
  rcases hs.used hu with hold | ⟨frame, ack, hr, hid, hl', hr'⟩
  · obtain ⟨hsettled, hnone⟩ := h.used id ch hl hold
    exact ⟨hsettled.step hs (hsent hnone), fun call hun => hnone call (hunsent call hun)⟩
  · -- the ACK in hand answers the last frame
    obtain rfl := hreply.pending_unique hl' hl
    obtain ⟨hcount, hnot⟩ := h.inHand (hle _) hr hid
    have hnone : ∀ call, ¬c.Unsent log call ack.id := fun call hun => hnot (h.unsent _ call hun)
    refine ⟨?_, fun call hun => hnone call (hunsent call hun)⟩
    unfold Client.Settled
    rw [hr', sentIDs_append, ackIDsRead_append, List.count_append, List.count_append, hsent hnone]
    show _ + 0 + 0 ≤ _
    omega

theorem Client.AnswerInv.step (h : c.AnswerInv log) (hreply : c.ReplyInv log)
    (heff : ClientEffect c a c' os)
    (hle : ∀ id, (ackIDsRead log).count id ≤ (sentIDs log).count id)
    (hfresh : ∀ event, c.registers a = some event → c.Fresh log event.id) :
    c'.AnswerInv (log ++ os) := by
  have hs := heff.replyStep hreply.acknowledging
  have hregfresh : ∀ call ch event, .registered call ch event ∈ os → c.Fresh log event.id :=
    fun call ch event ho => hfresh event (heff.registers hreply ho).1
  constructor
  case owed =>
    intro id
    -- a PUBLISH that is sent now was settled before: its ID had no ACK on the way
    have hlooked := hs.looked id
    have howed := h.owed id
    rw [sentIDs_append, ackIDsRead_append, List.count_append, List.count_append]
    rcases heff.sent hreply id with hzero | ⟨hone, call, hun, -⟩
    · omega
    · have hsettled := h.unsent id call hun
      unfold Client.Settled at hsettled
      omega
  case unsent =>
    intro id call hun
    rcases heff.unsent hreply hun with hold | ⟨ch, event, ho, rfl⟩
    · rcases heff.sent hreply id with hzero | ⟨-, call', hold', hnot⟩
      · exact (h.unsent id call hold).step hs hzero
      · rw [h.once id call' call hold' hold] at hnot
        exact absurd hun hnot
    · refine (hregfresh call ch event ho).1.step hs ?_
      rw [sentIDs, (heff.registers hreply ho).2.2.1]
      rfl
  case once =>
    intro id call call' hun hun'
    rcases heff.unsent hreply hun with hold | ⟨ch, event, ho, rfl⟩
    · rcases heff.unsent hreply hun' with hold' | ⟨ch', event', ho', rfl⟩
      · exact h.once id call call' hold hold'
      · exact absurd hold ((hregfresh call' ch' event' ho').2 call)
    · rcases heff.unsent hreply hun' with hold' | ⟨ch', event', ho', -⟩
      · exact absurd hold' ((hregfresh call ch event ho).2 call')
      · exact (hs.same call call' ch ch' event event' ho ho').1
  case used =>
    intro id ch hl hu
    by_cases hreg : ∃ call ch' event, .registered call ch' event ∈ os ∧ event.id = id
    · -- the channel has just been made, and nothing has reached it
      obtain ⟨call, ch', event, ho, rfl⟩ := hreg
      obtain ⟨-, hl', -, hr⟩ := heff.registers hreply ho
      rw [hl', Option.some.injEq] at hl
      subst hl
      rcases hs.used hu with hold | ⟨frame, ack, hr', -, -, hr''⟩
      · exact absurd (hs.made call ch' event ho).1 (Nat.ne_of_lt (hreply.used_lt hold))
      · rw [hr, hr'] at hr''
        exact nomatch hr''
    · exact h.used_step hreply heff hle hreg hl hu
  case empty =>
    intro ch ack chan hr hch
    refine List.eq_nil_iff_forall_not_mem.mpr fun ack' hack => ?_
    -- an ACK in the channel would have been the only one that its ID was owed
    obtain ⟨chan₀, hch₀, hack₀⟩ := heff.buffered_of_reply hr hch hack
    rcases hs.replying ch ack hr with hold | ⟨frame, hpc, htype, hdec, hl⟩
    · rw [h.empty ch ack chan₀ hold hch₀] at hack₀
      cases hack₀
    · exact (h.inHand (hle _) hpc (ackIDOf_eq_some htype hdec)).2
        (h.used ack.id ch hl (.inl ⟨chan₀, ack', hch₀, hack₀⟩)).1

/-! ## In a session -/

theorem mem_registrations :
    (call, event) ∈ registrations log ↔ ∃ ch, .registered call ch event ∈ log := by
  simp only [registrations, List.mem_filterMap]
  constructor
  · rintro ⟨o, ho, heq⟩
    split at heq
    · cases heq
      exact ⟨_, ho⟩
    · cases heq
  · rintro ⟨ch, ho⟩
    exact ⟨_, ho, rfl⟩

theorem Client.fresh_iff (log : List ClientObs) (c : Client) (id : Bytes) :
    c.Fresh log id ↔ c.Settled log id ∧ ∀ p ∈ registrations log, p.2.id = id →
      ∀ pc ∈ c.calls p.1, pc.past = true := by
  refine and_congr_right fun _ => ⟨fun h p hp hid pc hpc => ?_, fun h call => ?_⟩
  · obtain ⟨ch, hreg⟩ := mem_registrations.mp hp
    by_contra hpast
    exact h p.1 ⟨ch, p.2, pc, hreg, hid, hpc, by simpa using hpast⟩
  · rintro ⟨ch, event, pc, hreg, hid, hpc, hpast⟩
    rw [h (call, event) (mem_registrations.mpr ⟨ch, hreg⟩) hid pc hpc] at hpast
    cases hpast

instance (log : List ClientObs) (c : Client) (id : Bytes) : Decidable (c.Settled log id) :=
  inferInstanceAs (Decidable (_ ≤ _))

instance (log : List ClientObs) (c : Client) (id : Bytes) : Decidable (c.Fresh log id) :=
  decidable_of_iff' _ (Client.fresh_iff log c id)

/-- The event that a step registers. -/
def Session.registers (s : Session) : SessionAction → Option Event
  | .client a => s.client.registers a
  | .server _ => none

/-- A message ID is registered only when nothing is outstanding under it. -/
def ReusesAnswered (s : Session × List SessionObs) (a : SessionAction) : Prop :=
  ∀ event ∈ s.1.registers a, s.1.client.Fresh (clientLog s.2) event.id

instance (s : Session × List SessionObs) (a : SessionAction) : Decidable (ReusesAnswered s a) :=
  inferInstanceAs (Decidable (∀ event ∈ s.1.registers a, _))

section Session

variable {log : List SessionObs}

theorem answer_inv {s : Session × List SessionObs}
    (h : (Session.lts config k).history.Reach ReusesAnswered log s) :
    s.1.client.AnswerInv (clientLog log) := by
  refine h.induct_history (P := fun log s => s.client.AnswerInv (clientLog log)) ?_ ?_
  · rintro _ rfl
    refine ⟨fun id => Nat.zero_le _, ?_, ?_, nofun, nofun⟩
    · rintro id call ⟨_, _, _, hreg, -⟩
      cases hreg
    · rintro id call call' ⟨_, _, _, hreg, -⟩
      cases hreg
  intro log s a s' os hr ih hg hstep
  have hreach : (Session.lts config k).Reach Lts.Always log s := hr.of_history fun _ _ _ => trivial
  have hle := acks_le_sent hreach
  have hreply := reply_inv (Session.reach_client hreach)
  cases session_step_effect hstep with
  | server =>
    rw [clientLog_append, clientLog_map_server, List.append_nil]
    exact ⟨ih.owed, ih.unsent, ih.once, ih.used, ih.empty⟩
  | client _ hclient | send _ hclient =>
    rw [clientLog_append, clientLog_map_client]
    exact ih.step hreply (client_step_effect hclient) hle hg

/-- A channel that `readLoop` is about to send to has room, if a message ID is registered only
    when nothing is outstanding under it. -/
theorem reply_sends {s : Session × List SessionObs}
    (h : (Session.lts config k).history.Reach ReusesAnswered log s)
    (hr : s.1.client.reader = .reply ch ack) :
    ∃ chan chan', s.1.client.replies[ch]? = some chan ∧ chan.send ack = .done chan' := by
  have hreach : (Session.lts config k).Reach Lts.Always log s.1 := h.of_history fun _ _ _ => trivial
  have hclient := Session.reach_client hreach
  have hlt := (reply_inv hclient).used_lt (.inr ⟨ack, hr⟩)
  obtain ⟨chan, hch⟩ : ∃ chan, s.1.client.replies[ch]? = some chan :=
    ⟨_, List.getElem?_eq_getElem hlt⟩
  have hempty := (answer_inv h).empty ch ack chan hr hch
  have hone : ∀ chan ∈ s.1.client.replies, chan.cap = 1 ∧ chan.closed = false := by
    refine hclient.invariant (P := fun _ c => ∀ chan ∈ c.replies, chan.cap = 1 ∧
      chan.closed = false) ?_ ?_
    · rintro _ rfl
      exact nofun
    · exact fun _ _ _ _ _ ih _ hstep => (client_step_effect hstep).made_one ih
  obtain ⟨hcap, hopen⟩ := hone chan (List.mem_of_getElem? hch)
  obtain ⟨chan', hsend⟩ := chan.exists_send_done ack hopen (by rw [hempty, hcap]; decide)
  exact ⟨chan, chan', hch, hsend⟩

/-- `readLoop` never waits at the channel of a call, if a message ID is registered only when
    the frames with this ID have been answered and no other is about to be written. -/
theorem reply_never_blocks {s : Session × List SessionObs}
    (h : (Session.lts config k).history.Reach ReusesAnswered log s) {ch : ReplyChan}
    {ack : AckMessage} (hr : s.1.client.reader = .reply ch ack) :
    ∃ s' os, s.1.step k (.client .reply) = some (s', os) := by
  obtain ⟨chan, chan', hch, hsend⟩ := reply_sends h hr
  obtain ⟨c', hstep⟩ : ∃ c', s.1.client.step .reply = some (c', []) := by
    simp [Client.step, Client.reply, hr, hch, hsend, Client.stepped]
  exact ⟨⟨s.1.server, c'⟩, [], by
    simp [Session.step, Session.clientStep, ClientAction.fromPeer, hstep]⟩

end Session

/-! ## A reader that hangs -/

/-- `readLoop` waits at a full channel whose call has returned. -/
structure Client.Hangs (log : List ClientObs) (c : Client) (ch : ReplyChan) (ack : AckMessage) :
    Prop where
  reader : c.reader = .reply ch ack
  full : ∃ chan, c.replies[ch]? = some chan ∧ chan.send ack = .blocked
  left : ∃ call event ret, .registered call ch event ∈ log ∧ .returned call ret ∈ log

/-- Nobody receives from the channel of a call that has returned. -/
theorem Client.Hangs.replies {G : Client → ClientAction → Prop} {b : CallAction} {pc : ClientPc}
    {out : CallOut} (h : c.Hangs log ch ack) (hr : Client.lts.Reach G log c)
    (hpc : c.calls call = some pc) (hm : CallMove c call b pc out) :
    out.client.replies[ch]? = c.replies[ch]? := by
  have hreply := reply_inv hr
  have hlt := hreply.used_lt (.inr ⟨ack, h.reader⟩)
  have hstage := hreply.calls call pc hpc
  cases hm with
  | register => exact List.getElem?_append_left hlt
  | @acknowledged ctx id ch' =>
    refine List.getElem?_set_ne fun heq => ?_
    subst heq
    -- the call that waits would be the one that has returned
    obtain ⟨call', event, ret, hreg, hret⟩ := h.left
    cases hstage with
    | plain hplain => cases hplain
    | publish hreg' _ hst =>
      cases hst with
      | wait =>
        obtain ⟨rfl, -⟩ := hreply.unique _ _ _ _ _ hreg hreg'
        rw [returned_call hr hret] at hpc
        cases hpc
  | @remember eventID =>
    obtain ⟨_, _, heq⟩ := c.rememberDelivery_eq eventID
    rw [heq]
  | _ => rfl

/-- No step lets `readLoop` go on. -/
theorem Client.Hangs.step {G : Client → ClientAction → Prop} (h : c.Hangs log ch ack)
    (hr : Client.lts.Reach G log c) (heff : ClientEffect c a c' os) :
    c'.Hangs (log ++ os) ch ack := by
  have hleft : ∃ call event ret, .registered call ch event ∈ log ++ os ∧
      .returned call ret ∈ log ++ os := by
    obtain ⟨call, event, ret, hreg, hret⟩ := h.left
    exact ⟨call, event, ret, List.mem_append_left _ hreg, List.mem_append_left _ hret⟩
  have hreader := h.reader
  cases heff with
  | call hpc hm =>
    obtain ⟨_, _, _, _, heq⟩ := hm.client_eq
    have hch := h.replies hr hpc hm
    refine ⟨?_, ?_, hleft⟩
    · show ‹CallOut›.client.reader = _
      rw [heq]
      exact hreader
    · show ∃ chan, ‹CallOut›.client.replies[ch]? = some chan ∧ _
      rw [hch]
      exact h.full
  | reply hpc hch hsend =>
    obtain ⟨chan, hch', hfull⟩ := h.full
    rw [hreader] at hpc
    obtain ⟨rfl, rfl⟩ := ReadPc.reply.inj hpc
    rw [hch, Option.some.injEq] at hch'
    rw [hch', hfull] at hsend
    cases hsend
  | peerSend | invoke | close | closeConn | receive | receiveShutdown =>
    exact ⟨hreader, h.full, hleft⟩
  | dial hpc | readFails hpc | dispatch hpc | readAcknowledge hpc | put hpc | shutdown hpc
  | putDone hpc | shutdownDone hpc | readClose hpc | readClosed hpc | closeShutdowns hpc
  | closeEvents hpc =>
    rw [hreader] at hpc
    cases hpc
  | read _ hpc =>
    rw [hreader] at hpc
    cases hpc

/-- A reader that hangs does so for ever. -/
theorem hangs_forever {log log' : List SessionObs} {s' : Session}
    (h : (Session.lts config k).Reach G log s) (hhang : s.client.Hangs (clientLog log) ch ack)
    (hs : (Session.lts config k).Steps G s log' s') :
    s'.client.Hangs (clientLog (log ++ log')) ch ack := by
  refine h.forever (P := fun log s => s.client.Hangs (clientLog log) ch ack) hhang hs ?_
  intro log s a s' os hr ih _ hstep
  cases session_step_effect hstep with
  | server =>
    rw [clientLog_append, clientLog_map_server, List.append_nil]
    exact ⟨ih.reader, ih.full, ih.left⟩
  | client _ hclient | send _ hclient =>
    rw [clientLog_append, clientLog_map_client]
    exact ih.step (Session.reach_client hr) (client_step_effect hclient)

/-! ## Runs -/

/-- A call of `PublishWithResult` with a context that may end, for an event of ID 1. -/
private def tryPublishRun (call : ClientCall) : List SessionAction :=
  clientRun [.invoke call (.publishWithResult .live ⟨[1], [], [116], [], []⟩ (.error [])),
    .call call .register, .call call .check, .call call .write]

/-- The context of a call ends while it waits. -/
private def timeoutRun (call : ClientCall) : List SessionAction :=
  clientRun [.call call (.ctxDone .deadlineExceeded), .call call .leave]

/-- An ID is used again after a timeout, but only when the late ACK has come in. -/
theorem reply_never_blocks_reused :
    ∃ log s s' os, (Session.lts ⟨2, 0, 32, .block⟩ 0).history.Reach ReusesAnswered log s ∧
      .returned 0 (.failed (.ctx .deadlineExceeded)) ∈ clientLog log ∧
      s.1.client.reader = .reply 1 ⟨[1], ackDuplicate, []⟩ ∧
      s.1.step 0 (.client .reply) = some (s', os) := by
  obtain ⟨log, s, hr, hret, hpc⟩ :=
    Lts.reach_of_runWhere (M := (Session.lts ⟨2, 0, 32, .block⟩ 0).history) (G := ReusesAnswered)
      (Lts.history_init rfl)
      (dialRun 0 ++ tryPublishRun 0 ++ timeoutRun 0 ++ servePublishRun 0 ++
        clientRun [.read, .dispatch] ++ tryPublishRun 1 ++ servePublishRun 1 ++
        clientRun [.read, .dispatch])
      (Q := fun r => .returned 0 (.failed (.ctx .deadlineExceeded)) ∈ clientLog r.2 ∧
        r.1.1.client.reader = .reply 1 ⟨[1], ackDuplicate, []⟩) (by decide)
  obtain ⟨s', os, hstep⟩ := reply_never_blocks hr hpc
  exact ⟨log, s, s', os, hr, hret, hpc, hstep⟩

/-- A publish times out and is retried with the same ID. Both ACKs find the channel of the
    retry, which times out between them: `readLoop` waits there for ever. -/
theorem reader_hangs :
    ∃ log s, (Session.lts ⟨2, 0, 32, .block⟩ 0).Reach Lts.Always log s ∧
      s.client.Hangs (clientLog log) 1 ⟨[1], ackDuplicate, []⟩ ∧
      ∀ log' s', (Session.lts ⟨2, 0, 32, .block⟩ 0).Steps Lts.Always s log' s' →
        s'.client.reader = .reply 1 ⟨[1], ackDuplicate, []⟩ := by
  obtain ⟨log, s, hr, hpc, hfull, hreg, hret⟩ :=
    Lts.reach_of_runWhere (M := Session.lts ⟨2, 0, 32, .block⟩ 0) (G := Lts.Always) rfl
      (dialRun 0 ++ tryPublishRun 0 ++ timeoutRun 0 ++ tryPublishRun 1 ++ servePublishRun 0 ++
        servePublishRun 1 ++ clientRun [.read, .dispatch, .reply, .read, .dispatch] ++ timeoutRun 1)
      (Q := fun r => r.1.client.reader = .reply 1 ⟨[1], ackDuplicate, []⟩ ∧
        (∃ chan ∈ r.1.client.replies[1]?, chan.send ⟨[1], ackDuplicate, []⟩ = .blocked) ∧
        .registered 1 1 ⟨[1], [1], [116], [], []⟩ ∈ clientLog r.2 ∧
        .returned 1 (.failed (.ctx .deadlineExceeded)) ∈ clientLog r.2) (by decide)
  have hhang : s.client.Hangs (clientLog log) 1 ⟨[1], ackDuplicate, []⟩ :=
    ⟨hpc, hfull, 1, _, _, hreg, hret⟩
  exact ⟨log, s, hr, hhang, fun log' s' hs => (hangs_forever hr hhang hs).reader⟩

end EventBus
