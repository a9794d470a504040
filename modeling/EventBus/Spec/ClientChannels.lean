import EventBus.Spec.ClientReader

/-!
# The channels of a client

`readLoop` puts events on `c.events` and at most one redirect on `c.shutdowns`; the application
receives from both in order. `readLoop` closes `c.shutdowns` after it has left its loop.

## Key results

- `exposed_eq`: the events put are those received, then those in the buffer
- `redirect_inv`: one redirect at most, with which `readLoop` leaves its loop
-/

namespace EventBus

variable {log : List ClientObs} {event : Event} {c : Client} {G : Client → ClientAction → Prop}

/-- An event put on `c.events`. -/
def ClientObs.put? : ClientObs → Option Event
  | .put event => some event
  | _ => none

/-- A redirect put on `c.shutdowns`. -/
def ClientObs.redirected? : ClientObs → Option Bytes
  | .redirected redirect => some redirect
  | _ => none

/-- The events that `readLoop` has put on `c.events`. -/
def exposedEvents (log : List ClientObs) : List Event := log.filterMap ClientObs.put?

/-- The events that the application has received. -/
def receivedEvents (log : List ClientObs) : List Event :=
  log.filterMap fun
    | .received event => some event
    | _ => none

/-- The redirects that `readLoop` has put on `c.shutdowns`. -/
def redirects (log : List ClientObs) : List Bytes := log.filterMap ClientObs.redirected?

@[simp] theorem exposedEvents_append (log log' : List ClientObs) :
    exposedEvents (log ++ log') = exposedEvents log ++ exposedEvents log' :=
  List.filterMap_append

@[simp] theorem receivedEvents_append (log log' : List ClientObs) :
    receivedEvents (log ++ log') = receivedEvents log ++ receivedEvents log' :=
  List.filterMap_append

@[simp] theorem redirects_append (log log' : List ClientObs) :
    redirects (log ++ log') = redirects log ++ redirects log' := List.filterMap_append

theorem mem_receivedEvents :
    event ∈ receivedEvents log ↔ .received event ∈ log := by
  simp only [receivedEvents, List.mem_filterMap]
  constructor
  · rintro ⟨o, ho, heq⟩
    split at heq
    · cases heq
      exact ho
    · cases heq
  · exact fun ho => ⟨_, ho, rfl⟩

theorem mem_exposedEvents :
    event ∈ exposedEvents log ↔ .put event ∈ log := by
  constructor
  · intro hmem
    obtain ⟨o, ho, heq⟩ := List.mem_filterMap.mp hmem
    cases o with
    | put event' => exact Option.some.inj heq ▸ ho
    | _ => cases heq
  · exact fun ho => List.mem_filterMap.mpr ⟨_, ho, rfl⟩

theorem mem_redirects {redirect : Bytes} :
    redirect ∈ redirects log ↔ .redirected redirect ∈ log := by
  constructor
  · intro hmem
    obtain ⟨o, ho, heq⟩ := List.mem_filterMap.mp hmem
    cases o with
    | redirected redirect' => exact Option.some.inj heq ▸ ho
    | _ => cases heq
  · exact fun ho => List.mem_filterMap.mpr ⟨_, ho, rfl⟩

/-- A call puts nothing on a channel and takes nothing from one. -/
theorem Client.returnObs_channels (call : ClientCall) (pc : ClientPc) :
    exposedEvents (Client.returnObs call pc) = [] ∧
      receivedEvents (Client.returnObs call pc) = [] ∧
      redirects (Client.returnObs call pc) = [] := by
  cases pc <;> exact ⟨rfl, rfl, rfl⟩

theorem CallMove.channels {call : ClientCall} {a : CallAction} {pc : ClientPc} {out : CallOut}
    (h : CallMove c call a pc out) :
    (out.client.events = c.events ∧ out.client.shutdowns = c.shutdowns) ∧
      exposedEvents out.obs = [] ∧ receivedEvents out.obs = [] ∧ redirects out.obs = [] := by
  obtain ⟨_, _, _, _, heq⟩ := h.client_eq
  refine ⟨by rw [heq]; exact ⟨rfl, rfl⟩, ?_⟩
  cases h <;> exact ⟨rfl, rfl, rfl⟩

section Step

variable {c' : Client} {a : ClientAction} {os : List ClientObs}

/-- `c.events` is a queue. -/
theorem ClientEffect.events_fifo (h : ClientEffect c a c' os) :
    c.events.buf ++ exposedEvents os = receivedEvents os ++ c'.events.buf := by
  cases h with
  | @invoke call op =>
    obtain ⟨hput, hrecv, -⟩ := Client.returnObs_channels call op.start
    show _ ++ exposedEvents (Client.returnObs call op.start) =
      receivedEvents (Client.returnObs call op.start) ++ _
    rw [hput, hrecv, List.append_nil]
    rfl
  | @call call _ _ out _ hm =>
    obtain ⟨hput, hrecv, -⟩ := Client.returnObs_channels call out.pc
    obtain ⟨⟨hevents, -⟩, hput', hrecv', -⟩ := hm.channels
    show _ = _ ++ out.client.events.buf
    simp [hput, hrecv, hput', hrecv', hevents]
  | readAcknowledge _ hm =>
    obtain ⟨⟨hevents, -⟩, hput, hrecv, -⟩ := hm.channels
    simp [hput, hrecv, hevents]
  | put _ hsend => exact (Chan.send_done hsend).2.2.1.symm
  | closeEvents _ hclose =>
    show _ ++ [] = _
    rw [List.append_nil, (Chan.close_done hclose).2.1]
    rfl
  | receive hrecv =>
    show _ ++ [] = _
    rw [List.append_nil, (Chan.receive_some hrecv).1]
    rfl
  | _ => exact List.append_nil _

/-- Only a receive takes an event. -/
theorem ClientEffect.received_nil (h : ClientEffect c a c' os) (ha : a ≠ .receive) :
    receivedEvents os = [] := by
  cases h with
  | @invoke call op => exact (Client.returnObs_channels call op.start).2.1
  | @call call _ _ out _ hm =>
    rw [receivedEvents_append, (Client.returnObs_channels call out.pc).2.1, hm.channels.2.2.1]
    rfl
  | readAcknowledge _ hm => exact hm.channels.2.2.1
  | receive => exact absurd rfl ha
  | _ => rfl

/-- Outside its loop `readLoop` puts nothing on a channel. -/
theorem ClientEffect.left_quiet (h : ClientEffect c a c' os) (hleft : c.reader.left = true) :
    c'.reader.left = true ∧ exposedEvents os = [] ∧ redirects os = [] := by
  -- the steps of `readLoop` in its loop are not possible
  have hloop : ∀ {pc}, c.reader = pc → pc.left = false → False := by
    intro pc hpc hin
    rw [hpc, hin] at hleft
    cases hleft
  cases h with
  | @invoke call op =>
    obtain ⟨hput, -, hred⟩ := Client.returnObs_channels call op.start
    exact ⟨hleft, hput, hred⟩
  | @call call _ _ out _ hm =>
    obtain ⟨hput, -, hred⟩ := Client.returnObs_channels call out.pc
    obtain ⟨-, hput', -, hred'⟩ := hm.channels
    obtain ⟨_, _, _, _, heq⟩ := hm.client_eq
    refine ⟨?_, by simp [hput, hput'], by simp [hred, hred']⟩
    show out.client.reader.left = true
    rw [heq]
    exact hleft
  | dial hpc | readFails hpc | put hpc | reply hpc | shutdown hpc | putDone hpc
  | shutdownDone hpc => exact (hloop hpc rfl).elim
  | read _ hpc => exact (hloop hpc rfl).elim
  | dispatch hpc => exact (hloop hpc rfl).elim
  | readAcknowledge hpc => exact (hloop hpc rfl).elim
  | readClosed | closeShutdowns | closeEvents => exact ⟨rfl, rfl, rfl⟩
  | _ => exact ⟨hleft, rfl, rfl⟩

/-- Only a receive takes a redirect. -/
theorem ClientEffect.shutdowns_buf (h : ClientEffect c a c' os) (ha : a ≠ .receiveShutdown) :
    c'.shutdowns.buf = c.shutdowns.buf ++ redirects os := by
  cases h with
  | @invoke call op =>
    show _ = _ ++ redirects (Client.returnObs call op.start)
    rw [(Client.returnObs_channels call op.start).2.2, List.append_nil]
    rfl
  | @call call _ _ out _ hm =>
    obtain ⟨⟨-, hshutdowns⟩, -, -, hred⟩ := hm.channels
    rw [redirects_append, (Client.returnObs_channels call out.pc).2.2, hred, List.append_nil,
      List.append_nil]
    show out.client.shutdowns.buf = _
    rw [hshutdowns]
  | readAcknowledge _ hm =>
    obtain ⟨⟨-, hshutdowns⟩, -, -, hred⟩ := hm.channels
    rw [hred, List.append_nil]
    show Chan.buf (Client.shutdowns _) = _
    rw [hshutdowns]
  | shutdown _ hsend => exact (Chan.send_done hsend).2.2.1
  | closeShutdowns _ hclose =>
    show _ = _ ++ []
    rw [List.append_nil]
    exact (Chan.close_done hclose).2.1
  | receiveShutdown => exact absurd rfl ha
  | _ => exact (List.append_nil _).symm

/-- `c.shutdowns` is closed by a `readLoop` that has left its loop, and for good. -/
theorem ClientEffect.shutdowns_closed (h : ClientEffect c a c' os) :
    (c.shutdowns.closed = true → c'.shutdowns.closed = true) ∧
      (c'.shutdowns.closed = true → c.shutdowns.closed = true ∨ c'.reader.left = true) := by
  cases h with
  | @call _ _ _ out _ hm | @readAcknowledge _ _ out _ hm =>
    have hshutdowns : out.client.shutdowns = c.shutdowns := hm.channels.1.2
    exact ⟨fun hclosed => hshutdowns ▸ hclosed, fun hclosed => .inl (hshutdowns ▸ hclosed)⟩
  | shutdown _ hsend =>
    have hopen := (Chan.send_done hsend).1
    exact ⟨fun hclosed => (nomatch hopen.symm.trans hclosed), fun _ => .inr rfl⟩
  | closeShutdowns _ hclose => exact ⟨fun _ => (Chan.close_done hclose).2.2.2, fun _ => .inr rfl⟩
  | receiveShutdown hrecv =>
    have hsame := (Chan.receive_some hrecv).2.2
    exact ⟨hsame.trans, fun hclosed => .inl (hsame.symm.trans hclosed)⟩
  | _ => exact ⟨id, .inl⟩

end Step

/-- The events that `readLoop` has put on `c.events` are those that have been received, in
    order, and then those still in the buffer. -/
theorem exposed_eq (h : Client.lts.Reach G log c) :
    exposedEvents log = receivedEvents log ++ c.events.buf := by
  refine h.invariant
    (P := fun log c => exposedEvents log = receivedEvents log ++ c.events.buf) ?_ ?_
  · rintro _ rfl
    rfl
  · intro log c a c' os ih _ hstep
    rw [exposedEvents_append, ih, List.append_assoc, (client_step_effect hstep).events_fifo,
      receivedEvents_append, List.append_assoc]

/-- What has been put on `c.shutdowns`, and where `readLoop` stands then. -/
structure Client.RedirectInv (log : List ClientObs) (c : Client) : Prop where
  once : (redirects log).length ≤ 1
  left : redirects log ≠ [] → c.reader.left = true
  closed : c.shutdowns.closed = true → c.reader.left = true

/-- `readLoop` puts a redirect as it leaves its loop. -/
theorem ClientEffect.redirects_cases {c' : Client} {a : ClientAction} {os : List ClientObs}
    (h : ClientEffect c a c' os) : redirects os = [] ∨
      ∃ redirect, redirects os = [redirect] ∧ c.reader.left = false ∧ c'.reader.left = true := by
  cases h with
  | @invoke call op => exact .inl (Client.returnObs_channels call op.start).2.2
  | @call call _ _ out _ hm =>
    left
    rw [redirects_append, (Client.returnObs_channels call out.pc).2.2, hm.channels.2.2.2]
    rfl
  | readAcknowledge _ hm => exact .inl hm.channels.2.2.2
  | @shutdown redirect _ hpc => exact .inr ⟨redirect, rfl, by rw [hpc]; rfl, rfl⟩
  | _ => exact .inl rfl

theorem redirect_inv (h : Client.lts.Reach G log c) : c.RedirectInv log := by
  refine h.invariant (P := fun log c => c.RedirectInv log) ?_ ?_
  · rintro _ rfl
    exact ⟨Nat.zero_le _, fun hne => absurd rfl hne, nofun⟩
  intro log c a c' os ih _ hstep
  have heff := client_step_effect hstep
  have hclosed : c'.shutdowns.closed = true → c'.reader.left = true := by
    intro hc
    obtain hold | hleft := heff.shutdowns_closed.2 hc
    · exact (heff.left_quiet (ih.closed hold)).1
    · exact hleft
  obtain hnil | ⟨redirect, hone, hin, hleft⟩ := heff.redirects_cases
  · refine ⟨?_, fun hne => ?_, hclosed⟩
    · rw [redirects_append, hnil, List.append_nil]
      exact ih.once
    · rw [redirects_append, hnil, List.append_nil] at hne
      exact (heff.left_quiet (ih.left hne)).1
  · -- nothing has been put as long as `readLoop` is in its loop
    have hnone : redirects log = [] := by
      by_contra hne
      exact nomatch hin.symm.trans (ih.left hne)
    refine ⟨?_, fun _ => hleft, hclosed⟩
    rw [redirects_append, hnone, hone]
    exact Nat.le_refl 1

end EventBus
