import EventBus.Spec.ServerConsumers
import EventBus.Spec.ServerDelivery

/-!
# Which delivery an ACK is credited to

`deliver` enters its channel under the ID of its event in `c.pendingAck`, over whatever is
entered there, and deletes what it finds there when it returns. As long as no two calls with
one ID overlap, an ACK that `serve` looks up after the frame of an attempt was written reaches
the channel of this attempt. Two deliveries with one ID take each other's entry.

## Key results

- `credit_inv`: the entry of a delivery is its own, and its ACK is in its channel
- `deliveries_credited`: `deliver` returns `true`, if deliveries with one ID do not overlap
- `delivery_robbed`: an event of the same ID on another topic takes the ACKs
-/

namespace EventBus

variable {id payload : Bytes} {ch : AckChan} {sub₁ sub : SubPtr} {pc₁ pc pc' : DeliverPc}
  {x : Copy} {n : Nat} {status : UInt8} {chan chan' : Chan UInt8} {bus : Option Action}
  {s : Server}

/-! ## Entries -/

/-- The entry in `c.pendingAck` that `deliver` relies on. -/
def DeliverPc.entry : DeliverPc → Option (Bytes × AckChan)
  | .sending x _ ch _ | .waiting x _ ch _ => some (x.event.id, ch)
  | _ => none

/-- The ID under which `deliver` will delete an entry. -/
def DeliverPc.holds : DeliverPc → Option Bytes
  | .sending x .. | .waiting x .. | .leaving x _ => some x.event.id
  | _ => none

theorem DeliverPc.holds_of_entry (pc : DeliverPc) (h : pc.entry = some (id, ch)) :
    pc.holds = some id := by
  cases pc with
  | sending | waiting =>
    obtain ⟨rfl, -⟩ := Prod.mk.inj (Option.some.inj h)
    rfl
  | _ => cases h

/-- The deliveries that are under way have different IDs, and each has its own entry. -/
structure EntryInv (deliveries : SubPtr → Option DeliverPc)
    (pendingAck : AList fun _ : Bytes => AckChan) : Prop where
  own : ∀ sub pc id ch, deliveries sub = some pc → pc.entry = some (id, ch) →
    pendingAck.lookup id = some ch
  held : ∀ sub pc id, deliveries sub = some pc → pc.holds = some id → id ∈ pendingAck
  once : ∀ sub sub' pc pc' id, deliveries sub = some pc → deliveries sub' = some pc' →
    pc.holds = some id → pc'.holds = some id → sub = sub'

namespace EntryInv

variable {deliveries : SubPtr → Option DeliverPc} {pendingAck : AList fun _ : Bytes => AckChan}

/-- What a delivery goroutine is after it has moved, in the terms of what one was. -/
theorem update_cases (h : Function.update deliveries sub (some pc') sub₁ = some pc₁) :
    (sub₁ = sub ∧ pc₁ = pc') ∨ (sub₁ ≠ sub ∧ deliveries sub₁ = some pc₁) := by
  by_cases hsub : sub₁ = sub
  · subst hsub
    rw [Function.update_self, Option.some.injEq] at h
    exact .inl ⟨rfl, h.symm⟩
  · rw [Function.update_of_ne hsub] at h
    exact .inr ⟨hsub, h⟩

/-- A delivery goroutine stands where none has gone: it has not moved. -/
theorem update_other (h : Function.update deliveries sub (some pc') sub₁ = some pc₁)
    (hne : pc' ≠ pc₁) :
    sub₁ ≠ sub ∧ deliveries sub₁ = some pc₁ := by
  rcases update_cases h with ⟨-, rfl⟩ | hold
  · exact absurd rfl hne
  · exact hold

/-- A delivery goroutine moves and keeps its entry, or relies on none. -/
theorem move (h : EntryInv deliveries pendingAck)
    (hentry : ∀ e, pc'.entry = some e → ∃ pc, deliveries sub = some pc ∧ pc.entry = some e)
    (hholds : ∀ id, pc'.holds = some id → ∃ pc, deliveries sub = some pc ∧ pc.holds = some id) :
    EntryInv (Function.update deliveries sub (some pc')) pendingAck := by
  have hold : ∀ sub₁ pc₁ id, Function.update deliveries sub (some pc') sub₁ = some pc₁ →
      pc₁.holds = some id → ∃ pc, deliveries sub₁ = some pc ∧ pc.holds = some id := by
    intro sub₁ pc₁ id hpc hid
    rcases update_cases hpc with ⟨rfl, rfl⟩ | ⟨-, hpc⟩
    · exact hholds id hid
    · exact ⟨pc₁, hpc, hid⟩
  constructor
  · intro sub₁ pc₁ id ch hpc hch
    rcases update_cases hpc with ⟨rfl, rfl⟩ | ⟨-, hpc⟩
    · obtain ⟨pc, hpc, hch⟩ := hentry _ hch
      exact h.own sub₁ pc id ch hpc hch
    · exact h.own sub₁ pc₁ id ch hpc hch
  · intro sub₁ pc₁ id hpc hid
    obtain ⟨pc, hpc, hid⟩ := hold sub₁ pc₁ id hpc hid
    exact h.held sub₁ pc id hpc hid
  · intro sub₁ sub₂ pc₁ pc₂ id hpc₁ hpc₂ hid₁ hid₂
    obtain ⟨pc₁, hpc₁, hid₁⟩ := hold sub₁ pc₁ id hpc₁ hid₁
    obtain ⟨pc₂, hpc₂, hid₂⟩ := hold sub₂ pc₂ id hpc₂ hid₂
    exact h.once sub₁ sub₂ pc₁ pc₂ id hpc₁ hpc₂ hid₁ hid₂

/-- `deliver` enters its channel where nothing is entered. -/
theorem register (h : EntryInv deliveries pendingAck) (hnone : pendingAck.lookup id = none)
    (hentry : pc'.entry = some (id, ch)) (hholds : pc'.holds = some id) :
    EntryInv (Function.update deliveries sub (some pc')) (pendingAck.insert id ch) := by
  have hnot : id ∉ pendingAck := by rwa [← AList.lookup_eq_none]
  -- the other deliveries hold other IDs
  have hne : ∀ {sub₁ pc₁ id₁}, deliveries sub₁ = some pc₁ → pc₁.holds = some id₁ → id₁ ≠ id := by
    rintro sub₁ pc₁ id₁ hpc hid rfl
    exact hnot (h.held sub₁ pc₁ id₁ hpc hid)
  constructor
  · intro sub₁ pc₁ id₁ ch₁ hpc hch
    rcases update_cases hpc with ⟨rfl, rfl⟩ | ⟨-, hpc⟩
    · rw [hentry] at hch
      cases hch
      exact AList.lookup_insert _
    · have hl := h.own sub₁ pc₁ id₁ ch₁ hpc hch
      rw [AList.lookup_insert_ne ?_]
      · exact hl
      · rintro rfl
        rw [hl] at hnone
        cases hnone
  · intro sub₁ pc₁ id₁ hpc hid
    rw [AList.mem_insert]
    rcases update_cases hpc with ⟨rfl, rfl⟩ | ⟨-, hpc⟩
    · rw [hholds] at hid
      exact .inl (Option.some.inj hid).symm
    · exact .inr (h.held sub₁ pc₁ id₁ hpc hid)
  · intro sub₁ sub₂ pc₁ pc₂ id₁ hpc₁ hpc₂ hid₁ hid₂
    rcases update_cases hpc₁ with ⟨rfl, rfl⟩ | ⟨-, hold₁⟩ <;>
      rcases update_cases hpc₂ with ⟨rfl, rfl⟩ | ⟨-, hold₂⟩
    · rfl
    · rw [hholds] at hid₁
      exact absurd (Option.some.inj hid₁).symm (hne hold₂ hid₂)
    · rw [hholds] at hid₂
      exact absurd (Option.some.inj hid₂).symm (hne hold₁ hid₁)
    · exact h.once sub₁ sub₂ pc₁ pc₂ id₁ hold₁ hold₂ hid₁ hid₂

/-- `deliver` deletes its entry. -/
theorem leave (h : EntryInv deliveries pendingAck) (hpc : deliveries sub = some pc)
    (hid : pc.holds = some id) (hentry : pc'.entry = none) (hholds : pc'.holds = none) :
    EntryInv (Function.update deliveries sub (some pc')) (pendingAck.erase id) := by
  constructor
  · intro sub₁ pc₁ id₁ ch₁ hpc₁ hch
    rcases update_cases hpc₁ with ⟨rfl, rfl⟩ | ⟨hsub, hpc₁⟩
    · rw [hentry] at hch
      cases hch
    · rw [AList.lookup_erase_ne ?_]
      · exact h.own sub₁ pc₁ id₁ ch₁ hpc₁ hch
      · rintro rfl
        exact hsub (h.once sub₁ sub pc₁ pc id₁ hpc₁ hpc (pc₁.holds_of_entry hch) hid)
  · intro sub₁ pc₁ id₁ hpc₁ hid₁
    rcases update_cases hpc₁ with ⟨rfl, rfl⟩ | ⟨hsub, hpc₁⟩
    · rw [hholds] at hid₁
      cases hid₁
    · rw [AList.mem_erase]
      refine ⟨?_, h.held sub₁ pc₁ id₁ hpc₁ hid₁⟩
      rintro rfl
      exact hsub (h.once sub₁ sub pc₁ pc id₁ hpc₁ hpc hid₁ hid)
  · intro sub₁ sub₂ pc₁ pc₂ id₁ hpc₁ hpc₂ hid₁ hid₂
    rcases update_cases hpc₁ with ⟨rfl, rfl⟩ | ⟨-, hpc₁⟩
    · rw [hholds] at hid₁
      cases hid₁
    rcases update_cases hpc₂ with ⟨rfl, rfl⟩ | ⟨-, hpc₂⟩
    · rw [hholds] at hid₂
      cases hid₂
    · exact h.once sub₁ sub₂ pc₁ pc₂ id₁ hpc₁ hpc₂ hid₁ hid₂

end EntryInv

/-! ## Attempts -/

/-- An ACK with this ID has been looked up since the delivery wrote its last frame. -/
def answered (sub : SubPtr) (ch : AckChan) (id : Bytes) (L : List ConnObs) : Bool :=
  L.foldl (fun b o =>
    match o with
    | .wrote writer _ => b && writer ≠ .delivery sub ch
    | .looked ack _ => b || ack.id = id
    | _ => b) false

section Answered

variable {L : List ConnObs}

theorem answered_wrote (writer : Writer) (frame : Frame) :
    answered sub ch id (L ++ [.wrote writer frame]) =
      (answered sub ch id L && writer ≠ .delivery sub ch) := by
  simp [answered]

theorem answered_looked (ack : AckMessage) (r : Option AckChan) :
    answered sub ch id (L ++ [.looked ack r]) = (answered sub ch id L || ack.id = id) := by
  simp [answered]

/-- An attempt is answered by a lookup only. -/
theorem answered_of_append {obs : List ConnObs} (hobs : ∀ ack r, .looked ack r ∉ obs)
    (h : answered sub ch id (L ++ obs) = true) : answered sub ch id L = true := by
  induction obs generalizing L with
  | nil => simpa using h
  | cons o obs ih =>
    have hrest := ih (L := L ++ [o]) (fun ack r ho => hobs ack r (List.mem_cons_of_mem _ ho))
      (by simpa using h)
    cases o with
    | wrote writer frame =>
      rw [answered_wrote, Bool.and_eq_true] at hrest
      exact hrest.1
    | looked ack r => exact absurd List.mem_cons_self (hobs ack r)
    | _ => simpa [answered] using hrest

end Answered

/-! ## What a run may do -/

/-- The attempt whose timer fires in a step: the subscription, the event and the channel. -/
def Connection.timesOut (c : Connection) : ConnAction → Option (SubPtr × Copy × AckChan)
  | .deliverTimeout sub =>
    match c.deliveries sub with
    | some (.waiting x _ ch _) => some (sub, x, ch)
    | _ => none
  | _ => none

/-- The ACK that a step looks up. -/
def Connection.looksUp (c : Connection) : ConnAction → Option AckMessage
  | .serveDispatch =>
    match c.serve with
    | .handle frame => if frame.type = typeAck then (decodeAck frame.payload).toOption else none
    | _ => none
  | _ => none

/-- The event for which a step of `deliver` makes a channel. -/
def Connection.starts (c : Connection) : ConnAction → Option Copy
  | .deliverRegister sub =>
    match c.deliveries sub with
    | some (.registering x) => some x
    | _ => none
  | _ => none

/-- The write of an EVENT frame fails. -/
def ConnAction.deliverFails : ConnAction → Bool
  | .deliverSendFails _ => true
  | _ => false

/-- `serve` is at the `select` of `acknowledge`. -/
def ServePc.acking : ServePc → Bool
  | .acknowledgeSend .. => true
  | _ => false

/-- The peer answers: no write of an EVENT frame fails, every ACK that `serve` looks up has
    the status `ackDelivered`, and when a timer fires `serve` has processed an ACK with the ID
    of the event since the frame of the attempt was written. -/
def Connection.Timely (L : List ConnObs) (c : Connection) (a : ConnAction) : Prop :=
  a.deliverFails = false ∧ (∀ ack ∈ c.looksUp a, ack.status = ackDelivered) ∧
    ∀ p ∈ c.timesOut a, answered p.1 p.2.2 p.2.1.event.id L = true ∧ c.serve.acking = false

/-- The channel that a step leaves because the timer of the last attempt fires. -/
def Connection.abandons (c : Connection) : ConnAction → Option AckChan
  | .deliverTimeout sub =>
    match c.deliveries sub with
    | some (.waiting _ _ ch attempt) => if attempt < deliveryMaxAttempts then none else some ch
    | _ => none
  | _ => none

/-- `deliver` makes a channel for an event that fits in a frame and whose ID has no entry in
    `c.pendingAck`, and the `select` of its last attempt takes the timer only if no ACK is in the
    channel. An earlier attempt may: the ACK stays in the channel for the next one. -/
def Connection.Alone (c : Connection) (a : ConnAction) : Prop :=
  (∀ x ∈ c.starts a, c.pendingAck.lookup x.event.id = none ∧
    (encodeEvent x.event).toOption.isSome = true) ∧
  ∀ ch ∈ c.abandons a, ∀ chan ∈ c.acks[ch]?, chan.buf = []

/-! ## The invariant -/

/-- An ACK is in the channel, or `serve` is about to put one there. -/
def Connection.Due (c : Connection) (ch : AckChan) : Prop :=
  (∃ status, c.serve = .acknowledgeSend ch status) ∨
    ∃ chan, c.acks[ch]? = some chan ∧ chan.buf ≠ []

/-- The deliveries of a connection that has reported `L`. -/
structure Connection.CreditInv (L : List ConnObs) (c : Connection) : Prop where
  entries : EntryInv c.deliveries c.pendingAck
  due : ∀ sub x payload ch n, c.deliveries sub = some (.waiting x payload ch n) →
    answered sub ch x.event.id L = true → c.Due ch
  chans : ∀ chan ∈ c.acks, chan.cap = 1 ∧ chan.closed = false ∧
    ∀ status ∈ chan.buf, status = ackDelivered
  acking : ∀ ch status, c.serve = .acknowledgeSend ch status → status = ackDelivered
  leaving : ∀ sub x, c.deliveries sub ≠ some (.leaving x false)
  returned : ∀ sub x, .delivered sub x false ∉ L

section Step

variable {L obs : List ConnObs} {c c' : Connection}

/-- A step that looks up no ACK, and after which the deliveries that wait are ones that did
    and the ACKs for them are where they were. -/
private theorem due_of_waiting (h : c.CreditInv L) (hobs : ∀ ack r, .looked ack r ∉ obs)
    (hwait : ∀ sub x payload ch n, c'.deliveries sub = some (.waiting x payload ch n) →
      c.deliveries sub = some (.waiting x payload ch n))
    (hdue : ∀ sub x payload ch n, c.deliveries sub = some (.waiting x payload ch n) →
      c'.deliveries sub = some (.waiting x payload ch n) → c.Due ch → c'.Due ch)
    (sub : SubPtr) (x : Copy) (payload : Bytes) (ch : AckChan) (n : Nat)
    (hpc : c'.deliveries sub = some (.waiting x payload ch n))
    (hans : answered sub ch x.event.id (L ++ obs) = true) : c'.Due ch := by
  have hold := hwait sub x payload ch n hpc
  exact hdue sub x payload ch n hold hpc (h.due sub x payload ch n hold
    (answered_of_append hobs hans))

/-- Deliveries that wait do so at different channels. -/
theorem Connection.AckInv.waiting_unique (hack : c.AckInv L) (h : c.CreditInv L) {sub' : SubPtr}
    {x' : Copy} {payload' : Bytes} {n' : Nat}
    (hpc : c.deliveries sub = some (.waiting x payload ch n))
    (hpc' : c.deliveries sub' = some (.waiting x' payload' ch n')) : sub = sub' := by
  obtain ⟨sub₁, x₁, hreg, hid⟩ := hack.pending _ ch (h.entries.own sub _ _ ch hpc rfl)
  obtain ⟨sub₂, x₂, hreg', hid'⟩ := hack.pending _ ch (h.entries.own sub' _ _ ch hpc' rfl)
  obtain ⟨-, rfl⟩ := hack.unique sub₁ sub₂ ch x₁ x₂ hreg hreg'
  refine h.entries.once sub sub' _ _ x.event.id hpc hpc' rfl ?_
  rw [← hid, hid']
  rfl

/-- What is due stays so if the channels are the same and `serve` has no other ACK in hand. -/
private theorem Connection.Due.of_eq (h : c.Due ch) (hacks : c'.acks = c.acks)
    (hserve : c'.serve = c.serve ∨ c.serve.acking = false) : c'.Due ch := by
  rcases h with ⟨status, hs⟩ | hbuf
  · rcases hserve with heq | hno
    · exact .inl ⟨status, heq.trans hs⟩
    · rw [hs] at hno
      cases hno
  · rw [← hacks] at hbuf
    exact .inr hbuf

private theorem Connection.CreditInv.acking_of (h : c.CreditInv L)
    (hserve : c'.serve = c.serve ∨ c'.serve.acking = false) (ch : AckChan) (status : UInt8)
    (hs : c'.serve = .acknowledgeSend ch status) : status = ackDelivered := by
  rcases hserve with heq | hno
  · exact h.acking ch status (heq ▸ hs)
  · rw [hs] at hno
    cases hno

private theorem Connection.CreditInv.returned_append (h : c.CreditInv L)
    (hobs : ∀ sub x, .delivered sub x false ∉ obs) (sub : SubPtr) (x : Copy) :
    .delivered sub x false ∉ L ++ obs :=
  fun ho => (List.mem_append.mp ho).elim (h.returned sub x) (hobs sub x)

/-- A step of `serve` that is at no ACK, or of another goroutine that leaves the deliveries and
    their channels alone. -/
private theorem Connection.CreditInv.quiet (h : c.CreditInv L)
    (hdel : c'.deliveries = c.deliveries) (hpending : c'.pendingAck = c.pendingAck)
    (hacks : c'.acks = c.acks)
    (hserve : c'.serve = c.serve ∨ (c.serve.acking = false ∧ c'.serve.acking = false))
    (hlooked : ∀ ack r, .looked ack r ∉ obs) (hdelivered : ∀ sub x, .delivered sub x false ∉ obs) :
    c'.CreditInv (L ++ obs) where
  entries := by
    rw [hdel, hpending]
    exact h.entries
  due := due_of_waiting h hlooked (fun sub x payload ch n hpc => hdel ▸ hpc)
    fun _ _ _ _ _ _ _ hdue => hdue.of_eq hacks (hserve.imp_right And.left)
  chans := by
    rw [hacks]
    exact h.chans
  acking := h.acking_of (hserve.imp_right And.right)
  leaving sub x := by
    rw [hdel]
    exact h.leaving sub x
  returned := h.returned_append hdelivered

/-- A delivery goroutine goes to a place where it waits for no ACK, and what is due to the
    others stays so. -/
private theorem Connection.CreditInv.goes {sub : SubPtr} {pc' : DeliverPc} (h : c.CreditInv L)
    (hentries : EntryInv c'.deliveries c'.pendingAck)
    (hdel : c'.deliveries = Function.update c.deliveries sub (some pc'))
    (hwait : ∀ x payload ch n, pc' ≠ .waiting x payload ch n)
    (hleave : ∀ x, pc' ≠ .leaving x false) (hlooked : ∀ ack r, .looked ack r ∉ obs)
    (hdelivered : ∀ sub x, .delivered sub x false ∉ obs)
    (hdue : ∀ sub' x payload ch n, sub' ≠ sub →
      c.deliveries sub' = some (.waiting x payload ch n) → c.Due ch → c'.Due ch)
    (hchans : ∀ chan ∈ c'.acks, chan.cap = 1 ∧ chan.closed = false ∧
      ∀ status ∈ chan.buf, status = ackDelivered)
    (hacking : ∀ ch status, c'.serve = .acknowledgeSend ch status → status = ackDelivered) :
    c'.CreditInv (L ++ obs) where
  entries := hentries
  due := by
    have hold : ∀ {sub' x payload ch n}, c'.deliveries sub' = some (.waiting x payload ch n) →
        sub' ≠ sub ∧ c.deliveries sub' = some (.waiting x payload ch n) := by
      intro sub' x payload ch n hpc
      rw [hdel] at hpc
      exact EntryInv.update_other hpc (hwait x payload ch n)
    exact due_of_waiting h hlooked (fun _ _ _ _ _ hpc => (hold hpc).2)
      fun sub' x payload ch n hpc hpc' => hdue sub' x payload ch n (hold hpc').1 hpc
  chans := hchans
  acking := hacking
  leaving sub' x hpc := by
    rw [hdel] at hpc
    exact h.leaving sub' x (EntryInv.update_other hpc (hleave x)).2
  returned := h.returned_append hdelivered

/-- A delivery goroutine goes to a place where it waits for no ACK, and touches no channel. -/
private theorem Connection.CreditInv.move (h : c.CreditInv L)
    (hentries : EntryInv c'.deliveries c'.pendingAck)
    (hdel : c'.deliveries = Function.update c.deliveries sub (some pc'))
    (hacks : c'.acks = c.acks)
    (hserve : c'.serve = c.serve ∨ (c.serve.acking = false ∧ c'.serve.acking = false))
    (hwait : ∀ x payload ch n, pc' ≠ .waiting x payload ch n)
    (hleave : ∀ x, pc' ≠ .leaving x false) (hlooked : ∀ ack r, .looked ack r ∉ obs)
    (hdelivered : ∀ sub x, .delivered sub x false ∉ obs) : c'.CreditInv (L ++ obs) := by
  refine h.goes hentries hdel hwait hleave hlooked hdelivered (fun _ _ _ _ _ _ _ hdue => ?_) ?_
    (h.acking_of (hserve.imp_right And.right))
  · exact hdue.of_eq hacks (hserve.imp_right And.left)
  · rw [hacks]
    exact h.chans

/-- `serve` puts the ACK that it has in hand in the channel. -/
private theorem Connection.CreditInv.acknowledge {ch₀ : AckChan} (h : c.CreditInv L)
    (hpc : c.serve = .acknowledgeSend ch₀ status) (hch : c.acks[ch₀]? = some chan)
    (hsend : chan.send status = .done chan') :
    ({ c with acks := c.acks.set ch₀ chan', serve := .reading } : Connection).CreditInv
      (L ++ []) := by
  obtain ⟨-, -, hbuf, hcap, hopen⟩ := Chan.send_done hsend
  refine ⟨h.entries, ?_, fun chan₁ hchan₁ => ?_, nofun, h.leaving, h.returned_append (by simp)⟩
  · refine due_of_waiting h (by simp) (fun _ _ _ _ _ => id) fun sub x payload ch n _ _ hdue => ?_
    by_cases hch₀ : ch = ch₀
    · subst hch₀
      have hlt := (List.getElem?_eq_some_iff.mp hch).1
      exact .inr ⟨chan', by simp [hlt], by simp [hbuf]⟩
    · rcases hdue with ⟨status', hs⟩ | ⟨chan₁, hch₁, hne⟩
      · rw [hpc] at hs
        exact absurd (ServePc.acknowledgeSend.inj hs).1.symm hch₀
      · exact .inr ⟨chan₁, by rw [← hch₁]; exact List.getElem?_set_ne (Ne.symm hch₀), hne⟩
  · rcases List.mem_or_eq_of_mem_set hchan₁ with hold | rfl
    · exact h.chans chan₁ hold
    · obtain ⟨hcap₀, -, hst⟩ := h.chans chan (List.mem_of_getElem? hch)
      refine ⟨hcap.trans hcap₀, hopen, fun status' hmem => ?_⟩
      rw [hbuf, List.mem_append, List.mem_singleton] at hmem
      rcases hmem with hmem | rfl
      · exact hst status' hmem
      · exact h.acking ch₀ status' hpc

/-- `deliver` makes its channel, under an ID that has no entry. -/
private theorem Connection.CreditInv.register (payload : Bytes) (h : c.CreditInv L)
    (hnone : c.pendingAck.lookup x.event.id = none) :
    ({ c.setDelivery sub (.sending x payload c.acks.length 1) with
        acks := c.acks ++ [.make 1]
        pendingAck := c.pendingAck.insert x.event.id c.acks.length } : Connection).CreditInv
      (L ++ [.registered sub c.acks.length x]) := by
  refine h.goes (h.entries.register hnone rfl rfl) rfl nofun nofun (by simp) (by simp) ?_
    (fun chan hchan => ?_) h.acking
  · rintro sub' x' payload' ch' n' - - (hs | ⟨chan, hch, hne⟩)
    · exact .inl hs
    · exact .inr ⟨chan, List.getElem?_append_left (List.getElem?_eq_some_iff.mp hch).1 ▸ hch, hne⟩
  · rcases List.mem_append.mp hchan with hold | hnew
    · exact h.chans chan hold
    · rw [List.mem_singleton.mp hnew]
      exact ⟨rfl, rfl, nofun⟩

/-- `deliver` receives its ACK. -/
private theorem Connection.CreditInv.acknowledged (h : c.CreditInv L) (hack : c.AckInv L)
    (hpc : c.deliveries sub = some (.waiting x payload ch n)) (hch : c.acks[ch]? = some chan)
    (hrecv : chan.receive = .done (some status, chan')) :
    ({ c.setDelivery sub (if status = ackDelivered then .leaving x true
          else Connection.nextAttempt x payload ch n) with
        acks := c.acks.set ch chan' } : Connection).CreditInv (L ++ []) := by
  obtain ⟨hbuf, hcap, hclosed⟩ := Chan.receive_some hrecv
  obtain ⟨hcap₀, hopen₀, hst⟩ := h.chans chan (List.mem_of_getElem? hch)
  have hstatus : status = ackDelivered := hst status (by rw [hbuf]; exact .head _)
  rw [if_pos hstatus]
  refine h.goes (h.entries.move nofun fun id hid => ⟨_, hpc, hid⟩) rfl nofun nofun (by simp)
    (by simp) ?_ (fun chan₁ hchan₁ => ?_) h.acking
  · rintro sub' x' payload' ch' n' hsub hwait (hs | ⟨chan₁, hch₁, hne⟩)
    · exact .inl hs
    · -- the ACK that was received was in another channel
      have hother : ch ≠ ch' := by
        rintro rfl
        exact hsub (hack.waiting_unique h hwait hpc)
      exact .inr ⟨chan₁, (List.getElem?_set_ne hother).trans hch₁, hne⟩
  · rcases List.mem_or_eq_of_mem_set hchan₁ with hold | rfl
    · exact h.chans chan₁ hold
    · exact ⟨hcap.trans hcap₀, hclosed.trans hopen₀, fun status' hmem =>
        hst status' (by rw [hbuf]; exact .tail _ hmem)⟩

theorem ServePc.acking_of_plain {pc : ServePc} (h : pc.plain = true) : pc.acking = false := by
  cases pc <;> first | rfl | exact nomatch h

variable {a : ConnAction}

/-- `serve` credits an ACK to the delivery that waits for it. -/
private theorem ServeMove.credit {pc pc' : ServePc} (hm : ServeMove s c a pc pc' bus obs)
    (hpc : c.serve = pc) (h : c.CreditInv L)
    (hstatus : ∀ ack ∈ c.looksUp a, ack.status = ackDelivered) :
    ({ c with serve := pc' } : Connection).CreditInv (L ++ obs) := by
  cases hm with
  | @ackKnown frame ack ch₀ htype hdec hl =>
    have hst : ack.status = ackDelivered :=
      hstatus ack (by simp [Connection.looksUp, hpc, htype, hdec, Except.toOption])
    refine ⟨h.entries, fun sub x payload ch n hwait hans => ?_, h.chans, fun ch status hs => ?_,
      h.leaving, h.returned_append (by simp)⟩
    · rw [answered_looked, Bool.or_eq_true] at hans
      rcases hans with hold | hnew
      · exact (h.due sub x payload ch n hwait hold).of_eq rfl (.inr (by rw [hpc]; rfl))
      · -- the entry under the ID is that of this delivery
        have hown := h.entries.own sub _ _ ch hwait rfl
        rw [← of_decide_eq_true hnew, hl] at hown
        cases hown
        exact .inl ⟨_, rfl⟩
    · obtain ⟨-, rfl⟩ := ServePc.acknowledgeSend.inj hs
      exact hst
  | @ackUnknown frame ack htype hdec hl =>
    refine ⟨h.entries, fun sub x payload ch n hwait hans => ?_, h.chans, nofun, h.leaving,
      h.returned_append (by simp)⟩
    rw [answered_looked, Bool.or_eq_true] at hans
    rcases hans with hold | hnew
    · exact (h.due sub x payload ch n hwait hold).of_eq rfl (.inr (by rw [hpc]; rfl))
    · have hown := h.entries.own sub _ _ ch hwait rfl
      rw [← of_decide_eq_true hnew, hl] at hown
      cases hown
  | @ackDropped ch₀ status chan hch hfull =>
    refine ⟨h.entries, ?_, h.chans, nofun, h.leaving, h.returned_append (by simp)⟩
    refine due_of_waiting h (by simp) (fun _ _ _ _ _ => id) ?_
    rintro sub x payload ch n - - (⟨status', hs⟩ | hbuf)
    · rw [hpc] at hs
      obtain ⟨rfl, -⟩ := ServePc.acknowledgeSend.inj hs
      -- the channel is full, so an ACK is in it
      refine .inr ⟨chan, hch, fun hnil => ?_⟩
      have hlen := ((Chan.send_blocked_iff chan status).mp hfull).2
      rw [hnil, (h.chans chan (List.mem_of_getElem? hch)).1] at hlen
      cases hlen
    · exact .inr hbuf
  | subscribe | ackInvalid | unsupported | publishDraining | publishAllowed | subscribeError
  | publishReturn | send | sendReport | sendIgnore =>
    exact h.quiet rfl rfl rfl (.inr ⟨by rw [hpc]; rfl, ServePc.acking_of_plain (by simp)⟩) (by simp)
      (by simp)
  | _ => exact h.quiet rfl rfl rfl (.inr ⟨by rw [hpc]; rfl, rfl⟩) (by simp) (by simp)

/-- The timer of the last attempt does not fire: an ACK is in the channel. -/
private theorem Connection.CreditInv.attempt_left (h : c.CreditInv L)
    (hpc : c.deliveries sub = some (.waiting x payload ch n))
    (ht : c.Timely L (.deliverTimeout sub)) (ha : c.Alone (.deliverTimeout sub)) :
    n < deliveryMaxAttempts := by
  by_contra hlast
  have hout : c.timesOut (.deliverTimeout sub) = some (sub, x, ch) := by
    simp [Connection.timesOut, hpc]
  have hlastTimer : c.abandons (.deliverTimeout sub) = some ch := by
    simp [Connection.abandons, hpc, hlast]
  obtain ⟨hans, hno⟩ := ht.2.2 _ hout
  rcases h.due sub x payload ch n hpc hans with ⟨status, hs⟩ | ⟨chan, hch, hne⟩
  · rw [hs] at hno
    cases hno
  · exact hne (ha.2 ch hlastTimer chan hch)

private theorem DeliverMove.credit (hm : DeliverMove s c sub a pc pc' bus obs)
    (hpc : c.deliveries sub = some pc) (h : c.CreditInv L) (ht : c.Timely L a) (ha : c.Alone a) :
    (c.setDelivery sub pc').CreditInv (L ++ obs) := by
  cases hm with
  | receive | receiveEnd =>
    exact h.move (h.entries.move nofun nofun) rfl rfl (.inl rfl) nofun nofun (by simp) (by simp)
  | @encodeFails x err henc =>
    have hsome := (ha.1 x (by simp [Connection.starts, hpc])).2
    rw [henc] at hsome
    cases hsome
  | @send x payload ch n =>
    have hentries : EntryInv (c.setDelivery sub (.waiting x payload ch n)).deliveries
        c.pendingAck :=
      h.entries.move (fun e he => ⟨_, hpc, he⟩) fun id hid => ⟨_, hpc, hid⟩
    refine ⟨hentries, fun sub' x' payload' ch' n' hwait hans => ?_, h.chans, h.acking,
      fun sub' x' hleave => ?_, h.returned_append (by simp)⟩
    · rw [answered_wrote, Bool.and_eq_true] at hans
      rcases EntryInv.update_cases hwait with ⟨rfl, heq⟩ | ⟨-, hold⟩
      · -- the frame has just been written
        obtain ⟨-, -, rfl, -⟩ := DeliverPc.waiting.inj heq
        exact absurd rfl (of_decide_eq_true hans.2)
      · exact h.due sub' x' payload' ch' n' hold hans.1
    · exact h.leaving sub' x' (EntryInv.update_other hleave nofun).2
  | sendFails => exact nomatch ht.1
  | @timeout x payload ch n =>
    -- there is an attempt left, and the entry stays
    have hnext : Connection.nextAttempt x payload ch n = .sending x payload ch (n + 1) :=
      if_pos (h.attempt_left hpc ht ha)
    rw [hnext]
    exact h.move (h.entries.move (fun e he => ⟨_, hpc, he⟩) fun id hid => ⟨_, hpc, hid⟩) rfl rfl
      (.inl rfl) nofun nofun (by simp) (by simp)

theorem ConnMove.credit {out : Out} (hm : ConnMove s c a out) (hack : c.AckInv L)
    (h : c.CreditInv L) (ht : c.Timely L a) (ha : c.Alone a) :
    out.conn.CreditInv (L ++ out.obs) := by
  cases hm with
  | serve hpc hm => exact hm.credit hpc h ht.2.1
  | connect _ hpc =>
    exact h.quiet rfl rfl rfl
      (.inr ⟨by rw [hpc]; rfl, ServePc.acking_of_plain (plain_connectNext _)⟩) (by simp) (by simp)
  | read _ hpc | store hpc | replaced hpc | unsubscribe hpc | abort hpc =>
    exact h.quiet rfl rfl rfl (.inr ⟨by rw [hpc]; rfl, rfl⟩) (by simp) (by simp)
  | spawn hpc =>
    exact h.move (h.entries.move nofun nofun) rfl rfl (.inr ⟨by rw [hpc]; rfl, rfl⟩) nofun nofun
      (by simp) (by simp)
  | acknowledge hpc hch hsend => exact h.acknowledge hpc hch hsend
  | deliver hpc hm => exact hm.credit hpc h ht ha
  | @register sub x payload hpc =>
    exact h.register payload (ha.1 x (by simp [Connection.starts, hpc])).1
  | acknowledged hpc hch hrecv => exact h.acknowledged hack hpc hch hrecv
  | @leave sub x ok hpc =>
    have hok : ok = true := by
      cases ok with
      | true => rfl
      | false => exact absurd hpc (h.leaving sub x)
    subst hok
    exact h.move (h.entries.leave hpc rfl rfl rfl) rfl rfl (.inl rfl) nofun nofun (by simp)
      (by simp)
  | endDelivery hpc =>
    exact h.move (h.entries.move nofun nofun) rfl rfl (.inl rfl) nofun nofun (by simp) (by simp)
  | graceful _ hm =>
    exact h.quiet rfl rfl rfl (.inl rfl) (by cases hm <;> simp) (by cases hm <;> simp)
  | _ => exact h.quiet rfl rfl rfl (.inl rfl) (by simp) (by simp)

end Step

/-! ## In a run -/

/-- The steps of connection `k` satisfy `P`, given what the connection has reported. -/
def OnConn (k : ConnId) (P : List ConnObs → Connection → ConnAction → Prop)
    (s : Server × List ServerObs) (a : ServerAction) : Prop :=
  ∀ act ∈ a.on k, ∀ c ∈ s.1.connections k, P (connLog k s.2) c act

instance (k : ConnId) (P : List ConnObs → Connection → ConnAction → Prop)
    [∀ L c a, Decidable (P L c a)] (s : Server × List ServerObs) (a : ServerAction) :
    Decidable (OnConn k P s a) :=
  inferInstanceAs (Decidable (∀ act ∈ a.on k, ∀ c ∈ s.1.connections k, _))

instance (L : List ConnObs) (c : Connection) (a : ConnAction) : Decidable (c.Timely L a) :=
  inferInstanceAs (Decidable (_ ∧ _ ∧ _))

instance (c : Connection) (a : ConnAction) : Decidable (c.Alone a) :=
  inferInstanceAs (Decidable (_ ∧ _))

section Run

variable {config : Config} {k : ConnId} {log : List ServerObs} {s : Server × List ServerObs}
  {c : Connection}

theorem credit_inv (h : (Server.lts config).history.Reach
      (OnConn k fun L c a => c.Timely L a ∧ c.Alone a) log s)
    (hc : s.1.connections k = some c) : c.CreditInv (connLog k log) := by
  refine Server.conn_induct_history h hc (I := fun L _ c => c.CreditInv L) ?_ ?_
  · exact fun _ => ⟨⟨nofun, nofun, nofun⟩, nofun, nofun, nofun, nofun, nofun⟩
  · intro log s a s' os c c' obs b hr _ hc _ hg _ hch ih
    cases hch with
    | move hm =>
      obtain ⟨ht, ha⟩ := hg _ (ServerAction.on_conn k _) c hc
      have hreach : (Server.lts config).Reach Lts.Always log s := hr.of_history fun _ _ _ => trivial
      exact hm.credit (ack_inv hreach hc) ih ht ha
    | _ => exact ih.quiet rfl rfl rfl (.inl rfl) (by simp) (by simp)

theorem step_deliverAcknowledged {s : Server} (hc : s.connections k = some c)
    (hpc : c.deliveries sub = some (.waiting x payload ch n)) (hch : c.acks[ch]? = some chan)
    (hrecv : chan.receive = .done (some ackDelivered, chan')) :
    ∃ s' c', s.step (.conn k (.deliverAcknowledged sub)) = some (s', []) ∧
      s'.connections k = some c' ∧ c'.deliveries sub = some (.leaving x true) := by
  have hstep : s.step (.conn k (.deliverAcknowledged sub)) = some (s.setConn k
      { c.setDelivery sub (.leaving x true) with acks := c.acks.set ch chan' }, []) := by
    simp [Server.step, Server.stepConn, hc, Server.connStep, Connection.deliverAcknowledged, hpc,
      hch, hrecv, Connection.done]
  exact ⟨_, _, hstep, Server.setConn_self .., Connection.setDelivery_self ..⟩

theorem step_deliverLeave {s : Server} (hc : s.connections k = some c)
    (hpc : c.deliveries sub = some (.leaving x true)) :
    ∃ s', s.step (.conn k (.deliverLeave sub)) = some (s', [.conn k (.delivered sub x true)]) := by
  simp [Server.step, Server.stepConn, hc, Server.connStep, Connection.deliverLeave, hpc,
    Connection.done]

/-- Delivery ACKs are credited to the right delivery, if the peer answers in time and no two
    deliveries with one event ID overlap: no call of `deliver` returns `false`, and one whose
    attempt has been answered returns `true` in its next two steps. -/
theorem deliveries_credited (h : (Server.lts config).history.Reach
      (OnConn k fun L c a => c.Timely L a ∧ c.Alone a) log s)
    (hc : s.1.connections k = some c) :
    (∀ sub x, .delivered sub x false ∉ connLog k log ∧
      c.deliveries sub ≠ some (.leaving x false)) ∧
    ∀ sub x payload ch n, c.deliveries sub = some (.waiting x payload ch n) →
      answered sub ch x.event.id (connLog k log) = true → c.serve.acking = false →
      ∃ s', (Server.lts config).history.Steps (OnConn k fun L c a => c.Timely L a ∧ c.Alone a) s
        [.conn k (.delivered sub x true)] s' := by
  have hinv := credit_inv h hc
  refine ⟨fun sub x => ⟨hinv.returned sub x, hinv.leaving sub x⟩, ?_⟩
  intro sub x payload ch n hpc hans hno
  obtain ⟨chan, hch, hne⟩ : ∃ chan, c.acks[ch]? = some chan ∧ chan.buf ≠ [] := by
    rcases hinv.due sub x payload ch n hpc hans with ⟨status, hs⟩ | hbuf
    · rw [hs] at hno
      cases hno
    · exact hbuf
  obtain ⟨status, chan', hrecv⟩ := chan.exists_receive_some hne
  obtain rfl : status = ackDelivered := by
    refine (hinv.chans chan (List.mem_of_getElem? hch)).2.2 status ?_
    rw [(Chan.receive_some hrecv).1]
    exact .head _
  obtain ⟨s₁, c₁, hack, hc₁, hpc₁⟩ := step_deliverAcknowledged hc hpc hch hrecv
  obtain ⟨s', hleave⟩ := step_deliverLeave hc₁ hpc₁
  -- neither of the two steps is restricted
  have hfree : ∀ (s : Server × List ServerObs) (a : ConnAction), a = .deliverAcknowledged sub ∨
      a = .deliverLeave sub → OnConn k (fun L c a => c.Timely L a ∧ c.Alone a) s (.conn k a) := by
    rintro s a ha act hact c -
    rw [ServerAction.on_conn] at hact
    cases hact
    rcases ha with rfl | rfl <;> exact ⟨⟨rfl, nofun, nofun⟩, nofun, nofun⟩
  have hfirst := Lts.Steps.single (M := (Server.lts config).history) (hfree s _ (.inl rfl))
    (Lts.history_step_of hack)
  have hsecond := Lts.Steps.single (M := (Server.lts config).history)
    (hfree (s₁, s.2 ++ []) _ (.inr rfl)) (Lts.history_step_of hleave)
  exact ⟨_, hfirst.trans hsecond⟩

end Run

/-! ## Runs -/

/-- Connection 0, which is subscribed to the topic `t`, subscribes to `u` too. -/
private def subscribeOther : List ServerAction :=
  [.peerSend 0 ⟨typeSubscribe, [0, 1, 117]⟩, .conn 0 .serveRead, .conn 0 .serveDispatch,
    .conn 0 .subscribeLock, .conn 0 .isDraining, .conn 0 .isDrainingConn,
    .conn 0 (.subscribeCall 1), .bus (.subscribe 1), .conn 0 .subscribeReturn,
    .conn 0 .subscribeStore, .conn 0 .subscribeSpawn, .conn 0 .subscribeUnlock]

/-- An event with this ID is published to `u`. -/
private def publishOther (id : UInt8) : List ServerAction :=
  [.bus (.invoke 3 (.publishWithResult .background ⟨[id], [], [117], [], []⟩)),
    .bus (.publishEnter 3 [1] []), .bus (.enqueueEnter 3), .bus (.enqueueCheck 3),
    .bus (.enqueueSend 3), .bus (.enqueueReturn 3), .bus (.publishLeave 3 [])]

/-- The delivery goroutine of `sub` receives an event and writes it. -/
private def startRun (sub : SubPtr) : List ServerAction :=
  [.conn 0 (.deliverReceive sub), .conn 0 (.deliverRegister sub), .conn 0 (.deliverSend sub)]

/-- The peer acknowledges the event with this ID, and `serve` looks the ACK up. -/
private def ackRun (id : UInt8) : List ServerAction :=
  [.peerSend 0 ⟨typeAck, [0, 1, id, 4, 0, 0]⟩, .conn 0 .serveRead, .conn 0 .serveDispatch]

/-- Events with different IDs are on their way on both topics. -/
theorem deliveries_credited_two_topics :
    ∃ log s c payload s', (Server.lts ⟨2, 0, 0, .block⟩).history.Reach
        (OnConn 0 fun L c a => c.Timely L a ∧ c.Alone a) log s ∧
      s.1.connections 0 = some c ∧
      c.deliveries 0 = some (.waiting ⟨2, ⟨[1], [], [116], [], []⟩⟩ payload 0 1) ∧
      c.deliveries 1 = some (.waiting ⟨3, ⟨[2], [], [117], [], []⟩⟩
        [0, 1, 2, 0, 0, 0, 1, 117, 0, 0, 0, 0, 0, 0] 1 1) ∧
      (Server.lts ⟨2, 0, 0, .block⟩).history.Steps
        (OnConn 0 fun L c a => c.Timely L a ∧ c.Alone a) s
        [.conn 0 (.delivered 0 ⟨2, ⟨[1], [], [116], [], []⟩⟩ true)] s' := by
  obtain ⟨log, s, hr, c, hc, hpc, hpc', hans, hno⟩ :=
    Lts.reach_of_runWhere (M := (Server.lts ⟨2, 0, 0, .block⟩).history)
      (G := OnConn 0 fun L c a => c.Timely L a ∧ c.Alone a) (Lts.history_init rfl)
      (subscribeRun 0 0 ++ subscribeOther ++ publishRun 2 [1] 0 ++ publishOther 2 ++ startRun 0 ++
        startRun 1 ++ ackRun 1 ++ [ServerAction.conn 0 .acknowledgeSend])
      (Q := fun r => ∃ c ∈ r.1.1.connections 0,
        c.deliveries 0 = some (.waiting ⟨2, ⟨[1], [], [116], [], []⟩⟩
          [0, 1, 1, 0, 0, 0, 1, 116, 0, 0, 0, 0, 0, 0] 0 1) ∧
        c.deliveries 1 = some (.waiting ⟨3, ⟨[2], [], [117], [], []⟩⟩
          [0, 1, 2, 0, 0, 0, 1, 117, 0, 0, 0, 0, 0, 0] 1 1) ∧
        answered 0 0 [1] (connLog 0 r.2) = true ∧ c.serve.acking = false) (by decide)
  obtain ⟨s', hsteps⟩ := (deliveries_credited hr hc).2 0 _ _ 0 1 hpc hans hno
  exact ⟨log, s, c, _, s', hr, hc, hpc, hpc', hsteps⟩

set_option maxRecDepth 2048 in
/-- Events with the same ID are on their way on both topics. The second delivery overwrites the
    entry of the first and, when it has been acknowledged, deletes it. The first is answered
    three times, each time before its timer fires, and gives up. -/
theorem delivery_robbed :
    ∃ log s, (Server.lts ⟨2, 0, 0, .block⟩).history.Reach
        (OnConn 0 fun L c a => c.Timely L a) log s ∧
      .delivered 1 ⟨3, ⟨[1], [], [117], [], []⟩⟩ true ∈ connLog 0 log ∧
      .delivered 0 ⟨2, ⟨[1], [], [116], [], []⟩⟩ false ∈ connLog 0 log := by
  obtain ⟨log, s, hr, hother, hfirst⟩ :=
    Lts.reach_of_runWhere (M := (Server.lts ⟨2, 0, 0, .block⟩).history)
      (G := OnConn 0 fun L c a => c.Timely L a) (Lts.history_init rfl)
      (subscribeRun 0 0 ++ subscribeOther ++ publishRun 2 [1] 0 ++ publishOther 1 ++ startRun 0 ++
        startRun 1 ++ ackRun 1 ++ [ServerAction.conn 0 .acknowledgeSend] ++ ackRun 1 ++
        [ServerAction.conn 0 .acknowledgeSend, .conn 0 (.deliverAcknowledged 1),
          .conn 0 (.deliverLeave 1), .conn 0 (.deliverTimeout 0), .conn 0 (.deliverSend 0)] ++
        ackRun 1 ++
        [ServerAction.conn 0 (.deliverTimeout 0), .conn 0 (.deliverSend 0)] ++ ackRun 1 ++
        [ServerAction.conn 0 (.deliverTimeout 0), .conn 0 (.deliverLeave 0)])
      (Q := fun r => .delivered 1 ⟨3, ⟨[1], [], [117], [], []⟩⟩ true ∈ connLog 0 r.2 ∧
        .delivered 0 ⟨2, ⟨[1], [], [116], [], []⟩⟩ false ∈ connLog 0 r.2) (by decide)
  exact ⟨log, s, hr, hother, hfirst⟩

end EventBus
