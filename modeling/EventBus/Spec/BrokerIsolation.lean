import EventBus.Spec.BrokerEnqueue
import EventBus.Spec.BrokerMemory

/-!
# Isolation of consumers

Under `Drop`, `PublishWithResult` returns at the first subscription that refuses the event,
and the subscriptions behind it in the iteration order get nothing. A consumer's queue thus
depends on the queues of the others. It does not where the full or closed subscriptions come
last in the order in which the call copies the subscribers, as long as no other call closes or
fills a subscription that the loop has still to try on its way.

A call is followed from its copy of the subscribers on. `Pc.unserved` tells what its loop has
still to try, and the loop comes to a subscription exactly if it finds room on the whole way.

## Key results

- `served`: a subscription is given the event if there is room on the way to it
- `blocked`: it is not given the event if somebody on the way has no room
- `given_undisturbed`: what a subscription is given depends on its own state only
- `consumer_isolation`: all of these, and the two-run form
- `consumer_starved`: a full queue keeps the event from a queue with room
-/

namespace EventBus

/-- Subscription `p` is open and has a free slot in its queue. -/
def Bus.HasRoom (w : Bus) (p : SubPtr) : Prop :=
  ∃ sub ∈ w.subs[p]?, sub.closed = false ∧ sub.events.buf.length < sub.events.cap

instance (w : Bus) (p : SubPtr) : Decidable (w.HasRoom p) :=
  inferInstanceAs (Decidable (∃ _ ∈ _, _))

/-- The full or closed subscriptions come last in the iteration order. -/
def Bus.FullLast (w : Bus) (order : List SubPtr) : Prop :=
  order.Pairwise fun q p => w.HasRoom p → w.HasRoom q

instance (w : Bus) (order : List SubPtr) : Decidable (w.FullLast order) :=
  inferInstanceAs (Decidable (List.Pairwise _ _))

/-- The subscriptions that a loop tries on its way to `p`, and `p` itself. -/
def upTo (p : SubPtr) : List SubPtr → List SubPtr
  | [] => []
  | q :: todo => if q = p then [q] else q :: upTo p todo

/-- The subscriptions a publisher has still to try; the one it is trying included, until it
    has been accepted there. A publisher that has been refused tries no more. -/
def Pc.unserved : Pc → List SubPtr
  | .fanOut _ todo | .enqueueExit _ _ todo none => todo
  | .enqueueEntered _ s todo | .enqueueSelect _ s todo => s :: todo
  | _ => []

/-- The others leave room on the way of call `c` to `p`: as long as the call has not tried `p`,
    no step of another call closes a subscription on the way or takes its last slot. -/
def LeavesRoom (c : CallId) (p : SubPtr) (w : Bus) (a : Action) : Prop :=
  ∀ r ∈ w.step a, r.1.calls c = w.calls c →
    ∀ pc ∈ w.calls c, p ∈ pc.unserved → ∀ q ∈ upTo p pc.unserved, w.HasRoom q → r.1.HasRoom q

instance (c : CallId) (p : SubPtr) (w : Bus) (a : Action) : Decidable (LeavesRoom c p w a) :=
  inferInstanceAs (Decidable (∀ _ ∈ _, _))

/-- Only call `c` touches subscription `p`. -/
def Undisturbed (c : CallId) (p : SubPtr) (w : Bus) (a : Action) : Prop :=
  ∀ r ∈ w.step a, r.1.calls c = w.calls c → r.1.subs[p]? = w.subs[p]?

deriving instance DecidableEq for Subscription

instance (c : CallId) (p : SubPtr) (w : Bus) (a : Action) : Decidable (Undisturbed c p w a) :=
  inferInstanceAs (Decidable (∀ _ ∈ _, _))

/-- Only call `c` touches any subscription. -/
def OnlyCall (c : CallId) (w : Bus) (a : Action) : Prop :=
  ∀ r ∈ w.step a, r.1.calls c = w.calls c → r.1.subs = w.subs

instance (c : CallId) (w : Bus) (a : Action) : Decidable (OnlyCall c w a) :=
  inferInstanceAs (Decidable (∀ _ ∈ _, _))

/-- A call of `PublishWithResult` under `Drop`. In the reachable state `w₁` it copies the
    subscribers of the topic, in this order; from there it runs up to its return. -/
structure Publication (config : Config) (K : Bus → Action → Prop) (c : CallId) (ev : Event)
    (order : List SubPtr) (w₁ : Bus) (log : List Obs) (w₂ : Bus) : Prop where
  drop : config.backpressure = .drop
  start : ∃ log₁, (Bus.lts config).Reach Lts.Always log₁ w₁
  called : w₁.calls c = some (.publish ev)
  run : ∃ oldest w, w₁.step (.publishEnter c order oldest) = some (w, [.snapshot c order]) ∧
    (Bus.lts config).Steps K w log w₂
  returned : ∃ r, w₂.calls c = some (.returned r)

/-- The call is in its loop, or has left it. -/
def Pc.FansOut : Pc → Prop
  | .fanOut _ _ | .enqueueEntered _ _ _ | .enqueueSelect _ _ _ | .enqueueExit _ _ _ _
  | .returned _ | .panicked => True
  | _ => False

section Room

variable {w w' : Bus} {p q s : SubPtr} {todo order : List SubPtr} {sub : Subscription}

theorem Bus.HasRoom.of_sub (h : w.HasRoom s) (hs : w.subs[s]? = some sub) :
    sub.closed = false ∧ sub.events.buf.length < sub.events.cap := by
  obtain ⟨sub', hs', hroom⟩ := h
  rw [Option.mem_def.mp hs', Option.some.injEq] at hs
  exact hs ▸ hroom

/-- The counter of running sends does not matter for room. -/
theorem hasRoom_setWg (hs : w.subs[s]? = some sub) (n : Nat) :
    (w.setSub s { sub with wg := n }).HasRoom p ↔ w.HasRoom p := by
  by_cases hp : p = s
  · subst hp
    simp only [Bus.HasRoom, Bus.setSub_subs, List.getElem?_set_of_eq_some hs, hs, Option.mem_def,
      Option.some.injEq, exists_eq_left']
  · simp only [Bus.HasRoom, Bus.setSub_subs, List.getElem?_set_ne (Ne.symm hp)]

/-- The way to `p` begins with what is tried next. -/
theorem mem_upTo_head : s ∈ upTo p (s :: todo) := by
  unfold upTo
  split <;> simp

/-- What comes after a subscription on the way comes after it in the way that is left. -/
theorem upTo_cons_of_ne (hs : s ≠ p) : upTo p (s :: todo) = s :: upTo p todo := if_neg hs

theorem mem_of_mem_upTo (h : q ∈ upTo p todo) : q ∈ todo := by
  induction todo with
  | nil => exact h
  | cons s todo ih =>
    unfold upTo at h
    split at h
    · rw [List.mem_singleton.mp h]
      exact List.mem_cons_self
    · exact (List.mem_cons.mp h).elim (· ▸ List.mem_cons_self) fun h => .tail _ (ih h)

/-- If the full subscriptions come last, there is room on the way to one that has room. -/
theorem Bus.FullLast.way (h : w.FullLast order) (hroom : w.HasRoom p) (hp : p ∈ order)
    (hq : q ∈ upTo p order) : w.HasRoom q := by
  induction order with
  | nil => cases hp
  | cons s todo ih =>
    obtain ⟨hhead, htail⟩ := List.pairwise_cons.mp h
    by_cases hs : s = p
    · rw [upTo, if_pos hs, List.mem_singleton] at hq
      rwa [hq, hs]
    · have hp' : p ∈ todo := (List.mem_cons.mp hp).resolve_left (Ne.symm hs)
      rw [upTo_cons_of_ne hs, List.mem_cons] at hq
      rcases hq with rfl | hq
      · exact hhead p hp' hroom
      · exact ih htail hp' hq

end Room

section Moves

variable {w w' w₁ : Bus} {c : CallId} {a : Action} {pc pc' : Pc} {os : List Obs} {p q : SubPtr}

/-- A call that copies the subscribers goes on with its loop over them. -/
theorem publishEnter_copies {ev : Event} {order : List SubPtr} {oldest : Bytes}
    (hpc : w.calls c = some (.publish ev))
    (h : w.step (.publishEnter c order oldest) = some (w', [.snapshot c order])) :
    w' = w.setPc c (.fanOut ev order) := by
  rcases (step_effect h).cases_call c with
    ⟨-, hnot⟩ | ⟨op, hnone, -, -⟩ | ⟨pc, pc', w₁, hpc', hm, rfl⟩
  · exact absurd rfl (hnot (.snapshot c order) List.mem_cons_self)
  · rw [hpc] at hnone
    cases hnone
  · rw [hpc, Option.some.injEq] at hpc'
    subst hpc'
    generalize hos : [Obs.snapshot c order] = os at hm
    cases hm with
    | publishSnapshot => rfl
    | quiet => exact absurd (hos ▸ List.mem_cons_self) (by simp : Obs.snapshot c order ∉ _)
    | publishCached => simp at hos

/-- A loop is not entered again. -/
theorem Move.fansOut (h : Move w c a pc pc' w₁ os) (hpc : pc.FansOut) : pc'.FansOut := by
  cases h with
  | quiet hq => cases hq <;> trivial
  | _ => trivial

/-- As long as there is room on the way to a subscription, the loop goes on towards it until it
    has given it the event. -/
theorem Move.serves (h : Move w c a pc pc' w₁ os)
    (hdrop : w.broker.config.backpressure = .drop)
    (hdone : ∀ (s : SubPtr) (sub : Subscription), w.subs[s]? = some sub → sub.done = sub.closed)
    (honce : ∀ ev s todo, pc = .enqueueSelect ev s todo → s ∉ todo) (hp : p ∈ pc.unserved)
    (hway : ∀ q ∈ upTo p pc.unserved, w.HasRoom q) :
    p ∈ EventBus.directs os c ∨ (p ∈ pc'.unserved ∧ ∀ q ∈ upTo p pc'.unserved, w₁.HasRoom q) ∨
      ∃ s, .panicked s ∈ os := by
  cases h with
  | quiet hq =>
    -- whoever is tried next has room, so that nobody refuses
    cases hq with
    | enqueueClosed hs hcl =>
      rw [((hway _ mem_upTo_head).of_sub hs).1] at hcl
      cases hcl
    | enqueueCheckOpen => exact .inr (.inl ⟨hp, hway⟩)
    | enqueueCheckDone hs hd | enqueueDone hs hd =>
      rw [hdone _ _ hs, ((hway _ mem_upTo_head).of_sub hs).1] at hd
      cases hd
    | enqueueCtx _ hblock => exact absurd hdrop hblock
    | enqueueFull hs _ hfull =>
      have hfree := ((hway _ mem_upTo_head).of_sub hs).2
      have hlen := ((Chan.send_blocked_iff _ _).mp hfull).2
      omega
    | _ => cases hp
  | enqueueEnter hs | enqueueReturn hs =>
    exact .inr (.inl ⟨hp, fun q hq => (hasRoom_setWg hs _).mpr (hway q hq)⟩)
  | @enqueueSend _ s todo =>
    by_cases hs : s = p
    · exact .inl (by simp [EventBus.directs, hs])
    refine .inr (.inl ⟨(List.mem_cons.mp hp).resolve_left (Ne.symm hs), fun q hq => ?_⟩)
    have hne : s ≠ q := by
      rintro rfl
      exact honce _ _ _ rfl (mem_of_mem_upTo hq)
    have hroom := hway q (by rw [Pc.unserved, upTo_cons_of_ne hs]; exact .tail _ hq)
    simpa only [Bus.HasRoom, Bus.setSub_subs, List.getElem?_set_ne hne] using hroom
  | enqueuePanic => exact .inr (.inr ⟨_, List.mem_singleton_self _⟩)
  | _ => cases hp

/-- A publisher takes nothing from a queue. -/
theorem Move.taken_of_fansOut (h : Move w c a pc pc' w₁ os) (hpc : pc.FansOut) :
    taken os p = [] := by
  cases h with
  | closeDiscard => exact hpc.elim
  | quiet | closeBroker | closeEvents | subscribe => exact taken_eq_nil (by simp)
  | _ => exact taken_eq_nil (by simp)

/-- A publisher puts its own event in queues. -/
theorem Move.put_of_fansOut {x : Copy} {route : Route} (h : Move w c a pc pc' w₁ os)
    (hpc : pc.FansOut) (ho : .put p x route ∈ os) : x.call = c := by
  cases h with
  | subscribe => exact hpc.elim
  | enqueueSend =>
    simp only [List.mem_singleton, Obs.put.injEq] at ho
    obtain ⟨-, rfl, -⟩ := ho
    rfl
  | _ => simp at ho

/-- A subscription without room goes on having none and is given nothing by a publisher that
    did not enter it while it was open. -/
theorem Move.refused (h : Move w c a pc pc' w₁ os) (hpc : pc.FansOut) (hroom : ¬w.HasRoom p)
    (hclosed : ∀ sub, w.subs[p]? = some sub → sub.closed = true → pc.enqueuing ≠ some p) :
    given os p = [] ∧ ¬w₁.HasRoom p ∧
      ∀ sub, w₁.subs[p]? = some sub → sub.closed = true → pc'.enqueuing ≠ some p := by
  cases h with
  | quiet hq =>
    exact ⟨given_eq_nil (by simp), hroom, fun sub hs hcl => hq.enqueuing ▸ hclosed sub hs hcl⟩
  | publishLeave =>
    exact ⟨given_eq_nil (by simp), hroom, fun _ _ _ => by simp [Pc.enqueuing]⟩
  | @enqueueEnter _ s _ sub hs hopen =>
    refine ⟨rfl, fun h => hroom ((hasRoom_setWg hs _).mp h), ?_⟩
    rintro sub' hs' hcl heq
    cases heq
    rw [Bus.setSub_subs, List.getElem?_set_of_eq_some hs] at hs'
    cases hs'
    rw [hopen] at hcl
    cases hcl
  | @enqueueSend _ s _ sub _ hs hsend =>
    have hne : p ≠ s := by
      rintro rfl
      refine hroom ⟨sub, hs, ?_, (Chan.send_done hsend).2.1⟩
      cases hcl : sub.closed with
      | false => rfl
      | true => exact absurd rfl (hclosed sub hs hcl)
    refine ⟨given_eq_nil (by simp [hne]), ?_, fun _ _ _ => by simp [Pc.enqueuing, Ne.symm hne]⟩
    simpa only [Bus.HasRoom, Bus.setSub_subs, List.getElem?_set_ne (Ne.symm hne)] using hroom
  | enqueuePanic =>
    exact ⟨given_eq_nil (by simp), hroom, fun _ _ _ => by simp [Pc.enqueuing]⟩
  | enqueueReturn hs | enqueueFail hs =>
    exact ⟨given_eq_nil (by simp), fun h => hroom ((hasRoom_setWg hs _).mp h),
      fun _ _ _ => by simp [Pc.enqueuing]⟩
  | _ => exact hpc.elim

/-- A subscription that is given nothing stays on the way to the others, which are given nothing
    either. -/
theorem Move.stays_ahead (h : Move w c a pc pc' w₁ os) (hpc : pc.FansOut) (hq : given os q = [])
    (hahead : p ∈ pc.unserved → q ∈ upTo p pc.unserved) :
    p ∉ EventBus.directs os c ∧ (p ∈ pc'.unserved → q ∈ upTo p pc'.unserved) := by
  cases h with
  | quiet hquiet =>
    refine ⟨by simp [directs_eq_nil], ?_⟩
    cases hquiet with
    | enqueueCheckOpen => exact hahead
    | enqueueClosed | enqueueCheckDone | enqueueCtx | enqueueDone | enqueueFull =>
      simp [Pc.unserved]
    | _ => exact hpc.elim
  | enqueueEnter | enqueueReturn => exact ⟨by simp [directs_eq_nil], hahead⟩
  | publishLeave | enqueuePanic | enqueueFail =>
    exact ⟨by simp [directs_eq_nil], by simp [Pc.unserved]⟩
  | @enqueueSend _ s todo =>
    -- the one that accepts the event is neither `q` nor, behind `q`, `p`
    have hsq : q ≠ s := by
      rintro rfl
      simp [given] at hq
    have hsp : s ≠ p := by
      rintro rfl
      have hmem := hahead List.mem_cons_self
      rw [Pc.unserved, upTo, if_pos rfl, List.mem_singleton] at hmem
      exact hsq hmem
    refine ⟨by simp [EventBus.directs, Ne.symm hsp], fun hp => ?_⟩
    have hmem := hahead (List.mem_cons_of_mem _ hp)
    rw [Pc.unserved, upTo_cons_of_ne hsp] at hmem
    exact (List.mem_cons.mp hmem).resolve_left hsq
  | _ => exact hpc.elim

/-- A step does not both put in a queue and take from it. -/
theorem Effect.one_way (h : Effect w a w' os) (p : SubPtr) : given os p = [] ∨ taken os p = [] := by
  cases h with
  | call _ hm =>
    cases hm with
    | enqueueSend | subscribe => exact .inr (taken_eq_nil (by simp))
    | _ => exact .inl (given_eq_nil (by simp))
  | _ => exact .inl (given_eq_nil (by simp))

/-- A step that leaves a subscription alone neither puts in its queue nor takes from it. -/
theorem Effect.idle (h : Effect w a w' os) (hsame : w'.subs[p]? = w.subs[p]?) :
    given os p = [] ∧ taken os p = [] := by
  have hqueue := congrArg List.length (h.queue p)
  have heq : w'.queue p = w.queue p := by simp only [Bus.queue, hsame]
  rw [heq, List.length_append, List.length_append] at hqueue
  rcases h.one_way p with hnil | hnil
  · rw [hnil, List.length_nil] at hqueue
    exact ⟨hnil, List.length_eq_zero_iff.mp (by omega)⟩
  · rw [hnil, List.length_nil] at hqueue
    exact ⟨List.length_eq_zero_iff.mp (by omega), hnil⟩

end Moves

section Runs

variable {config : Config} {K : Bus → Action → Prop} {log : List Obs} {w w₁ w₂ : Bus} {c : CallId}
  {ev : Event} {order : List SubPtr} {p q : SubPtr}

/-- A publisher that is trying a subscription has it not before it again. -/
theorem select_not_mem {G : Bus → Action → Prop} (h : (Bus.lts config).Reach G log w)
    {s : SubPtr} {todo : List SubPtr} (hpc : w.calls c = some (.enqueueSelect ev s todo)) :
    s ∉ todo := by
  have hacc := account_inv h c
  rw [Accounted, hpc] at hacc
  obtain ⟨sent, hsnap, -⟩ := hacc
  have hnodup := snapshot_nodup h
    (mem_snapshots.mp (by rw [hsnap]; exact List.mem_singleton_self _))
  exact (List.nodup_cons.mp (List.nodup_append.mp hnodup).2.1).1

/-- A publication begins at the head of the loop over the subscribers. -/
theorem Publication.loop (h : Publication config K c ev order w₁ log w₂) :
    (∃ log₁, (Bus.lts config).Reach Lts.Always log₁ (w₁.setPc c (.fanOut ev order))) ∧
      (Bus.lts config).Steps K (w₁.setPc c (.fanOut ev order)) log w₂ := by
  obtain ⟨log₁, hreach⟩ := h.start
  obtain ⟨oldest, w, hstep, hrun⟩ := h.run
  obtain rfl := publishEnter_copies h.called hstep
  exact ⟨⟨_, hreach.next (a := .publishEnter c order oldest) trivial hstep⟩, hrun⟩

theorem Publication.mono {H : Bus → Action → Prop} (h : Publication config K c ev order w₁ log w₂)
    (hKH : ∀ w a, K w a → H w a) : Publication config H c ev order w₁ log w₂ := by
  obtain ⟨oldest, w, hstep, hrun⟩ := h.run
  exact ⟨h.drop, h.start, h.called, ⟨oldest, w, hstep, hrun.mono hKH⟩, h.returned⟩

/-- What holds while the call is in its loop, and is kept by its own moves and by the steps of
    the others, holds when it returns. -/
theorem Publication.along_loop (h : Publication config K c ev order w₁ log w₂)
    {P : List Obs → Bus → Pc → Prop} (h0 : P [] (w₁.setPc c (.fanOut ev order)) (.fanOut ev order))
    (hother : ∀ log w a w' os pc, P log w pc → K w a → w.step a = some (w', os) →
      w.calls c = some pc → w'.calls c = w.calls c → (∀ o ∈ os, o.actor ≠ some c) →
      P (log ++ os) w' pc)
    (hmove : ∀ log w a pc pc' w' os, (∃ log, (Bus.lts config).Reach Lts.Always log w) →
      (∃ log, (Bus.lts config).Reach Lts.Always (log ++ os) (w'.setPc c pc')) → pc.FansOut →
      P log w pc → w.calls c = some pc → Move w c a pc pc' w' os →
      P (log ++ os) (w'.setPc c pc') pc') :
    ∃ r, P log w₂ (.returned r) := by
  obtain ⟨⟨log₁, hreach⟩, hrun⟩ := h.loop
  obtain ⟨r, hret⟩ := h.returned
  have hinv := hrun.invariant (P := fun log w =>
    (∃ log, (Bus.lts config).Reach Lts.Always log w) ∧
      ∃ pc, w.calls c = some pc ∧ pc.FansOut ∧ P log w pc)
    ⟨⟨log₁, hreach⟩, _, Bus.setPc_calls_self _ _ _, trivial, h0⟩ ?_
  · obtain ⟨-, pc, hpc, -, hP⟩ := hinv
    rw [hret, Option.some.injEq] at hpc
    exact ⟨r, hpc ▸ hP⟩
  rintro log w a w' os ⟨⟨log₀, hr⟩, pc, hpc, hloop, hP⟩ hk hstep
  have hr' := hr.next trivial hstep
  refine ⟨⟨_, hr'⟩, ?_⟩
  rcases (step_effect hstep).cases_call c with
    ⟨hsame, hnot⟩ | ⟨op, hnone, -, -⟩ | ⟨pc₀, pc', w', hpc₀, hm, rfl⟩
  · exact ⟨pc, hsame ▸ hpc, hloop, hother _ _ _ _ _ _ hP hk hstep hpc hsame hnot⟩
  · rw [hnone] at hpc
    cases hpc
  · rw [hpc₀, Option.some.injEq] at hpc
    subst hpc
    exact ⟨pc', Bus.setPc_calls_self _ _ _, hm.fansOut hloop,
      hmove _ _ _ _ _ _ _ ⟨_, hr⟩ ⟨_, hr'⟩ hloop hP hpc₀ hm⟩

/-- A subscription is given the event if there is room on the way to it when the subscribers are
    copied, and the others leave it. -/
theorem served (h : Publication config (LeavesRoom c p) c ev order w₁ log w₂) (hp : p ∈ order)
    (hway : ∀ q ∈ upTo p order, w₁.HasRoom q) : p ∈ directs log c := by
  have hend := h.along_loop (P := fun log w pc =>
    p ∈ directs log c ∨ (p ∈ pc.unserved ∧ ∀ q ∈ upTo p pc.unserved, w.HasRoom q))
    (.inr ⟨hp, hway⟩) ?_ ?_
  · obtain ⟨r, hserved⟩ := hend
    exact hserved.resolve_right fun hleft => by cases hleft.1
  · intro log w a w' os pc hP hleaves hstep hpc hsame _
    rw [directs_append, List.mem_append]
    refine hP.imp .inl fun ⟨hp, hway⟩ => ⟨hp, fun q hq => ?_⟩
    exact hleaves _ hstep hsame pc hpc hp q hq (hway q hq)
  · rintro log w a pc pc' w' os ⟨log₁, hr⟩ ⟨log₂, hr'⟩ - hP hpc hm
    rw [directs_append, List.mem_append]
    rcases hP with hdir | ⟨hp, hway⟩
    · exact .inl (.inl hdir)
    have hdrop : w.broker.config.backpressure = .drop := by
      rw [config_inv hr]
      exact h.drop
    have honce : ∀ ev s todo, pc = .enqueueSelect ev s todo → s ∉ todo := by
      rintro ev s todo rfl
      exact select_not_mem hr hpc
    rcases hm.serves hdrop (fun _ _ hs => (sub_inv hr hs).done) honce hp hway with
      hdir | hleft | ⟨s, hpanic⟩
    · exact .inl (.inr hdir)
    · exact .inr hleft
    · exact absurd (List.mem_append_right _ hpanic) (not_panicked hr' s)

/-- Nothing is taken from a queue that only a publisher touches, and it is given events of
    that publisher only. -/
theorem undisturbed_log (h : Publication config (Undisturbed c p) c ev order w₁ log w₂) :
    taken log p = [] ∧ ∀ x ∈ given log p, x.call = c := by
  have hend := h.along_loop (P := fun log _ _ =>
    taken log p = [] ∧ ∀ x ∈ given log p, x.call = c) ⟨rfl, by simp [given]⟩ ?_ ?_
  · obtain ⟨r, hlog⟩ := hend
    exact hlog
  · rintro log w a w' os pc ⟨htaken, hgiven⟩ hund hstep - hsame -
    obtain ⟨hg, ht⟩ := (step_effect hstep).idle (hund _ hstep hsame)
    rw [taken_append, given_append, htaken, hg, ht, List.append_nil, List.append_nil]
    exact ⟨rfl, hgiven⟩
  · rintro log w a pc pc' w' os - - hloop ⟨htaken, hgiven⟩ - hm
    rw [taken_append, given_append, htaken, hm.taken_of_fansOut hloop]
    refine ⟨rfl, fun x hx => (List.mem_append.mp hx).elim (hgiven x) fun hx => ?_⟩
    obtain ⟨route, ho⟩ := mem_given.mp hx
    exact hm.put_of_fansOut hloop ho

/-- A subscription without room that only a publisher touches is given nothing, and neither is
    one that the loop would try after it. -/
theorem blocked (h : Publication config (Undisturbed c q) c ev order w₁ log w₂)
    (hroom : ¬w₁.HasRoom q) :
    given log q = [] ∧ ∀ p, q ∈ upTo p order → p ∉ directs log c := by
  have hend := h.along_loop (P := fun log w pc =>
    given log q = [] ∧ ¬w.HasRoom q ∧
      (∀ sub, w.subs[q]? = some sub → sub.closed = true → pc.enqueuing ≠ some q) ∧
      ∀ p, q ∈ upTo p order →
        p ∉ directs log c ∧ (p ∈ pc.unserved → q ∈ upTo p pc.unserved)) ?_ ?_ ?_
  · obtain ⟨r, hnil, -, -, hnone⟩ := hend
    exact ⟨hnil, fun p hq => (hnone p hq).1⟩
  · refine ⟨rfl, hroom, fun _ _ _ => by simp [Pc.enqueuing], fun p hq => ⟨?_, fun _ => hq⟩⟩
    simp [directs]
  · rintro log w a w' os pc ⟨hnil, hroom, hclosed, hnone⟩ hund hstep - hsame hnot
    have hsubs := hund _ hstep hsame
    rw [given_append, hnil, ((step_effect hstep).idle hsubs).1]
    refine ⟨rfl, by simpa only [Bus.HasRoom, hsubs] using hroom, hsubs ▸ hclosed, fun p hq => ?_⟩
    refine ⟨?_, (hnone p hq).2⟩
    rw [directs_append, List.mem_append, not_or]
    refine ⟨(hnone p hq).1, fun hdir => ?_⟩
    obtain ⟨x, hx, ho⟩ := mem_directs.mp hdir
    exact hnot _ ho (congrArg some hx)
  · rintro log w a pc pc' w' os - - hloop ⟨hnil, hroom, hclosed, hnone⟩ - hm
    obtain ⟨hg, hroom', hclosed'⟩ := hm.refused hloop hroom hclosed
    rw [given_append, hnil, hg]
    refine ⟨rfl, hroom', hclosed', fun p hq => ?_⟩
    obtain ⟨hdir, hahead⟩ := hm.stays_ahead hloop hg (hnone p hq).2
    rw [directs_append, List.mem_append, not_or]
    exact ⟨⟨(hnone p hq).1, hdir⟩, hahead⟩

/-- What a subscription that only the call touches is given depends on its own state, if the
    full ones come last: the event if it had room, and nothing otherwise. -/
theorem given_undisturbed
    (h : Publication config (fun w a => LeavesRoom c p w a ∧ Undisturbed c p w a) c ev order
      w₁ log w₂) (hp : p ∈ order) (hlast : w₁.FullLast order) :
    given log p = (if w₁.HasRoom p then [⟨c, ev⟩] else []) ∧
      w₂.queue p = w₁.queue p ++ given log p := by
  obtain ⟨⟨log₁, hreach⟩, hrun⟩ := h.loop
  have hreach₂ : (Bus.lts config).Reach Lts.Always (log₁ ++ log) w₂ :=
    hreach.trans (hrun.mono fun _ _ _ => trivial)
  have hund := h.mono (H := Undisturbed c p) fun _ _ hk => hk.2
  obtain ⟨htaken, hmine⟩ := undisturbed_log hund
  refine ⟨?_, ?_⟩
  · split
    · rename_i hroom
      have hserved := served (h.mono fun _ _ hk => hk.1) hp fun q => hlast.way hroom hp
      obtain ⟨x, hx, ho⟩ := mem_directs.mp hserved
      have hmem : x ∈ given log p := mem_given.mpr ⟨_, ho⟩
      -- there is one copy, as the call gives a queue at most one
      have hone := given_le_one hreach₂ c p
      rw [given_append, List.countP_append] at hone
      have hall : (given log p).countP (fun y => y.call = c) = (given log p).length :=
        List.countP_eq_length.mpr fun y hy => decide_eq_true (hmine y hy)
      have hlen : (given log p).length = 1 := by
        have := List.length_pos_of_mem hmem
        omega
      obtain ⟨y, hy⟩ := List.length_eq_one_iff.mp hlen
      rw [hy, List.mem_singleton] at hmem
      subst hmem
      have hlog := log_inv hreach₂
      have hby := (hlog.put p x .direct (List.mem_append_right _ ho)).1
      rw [hx] at hby
      have hev := hlog.event_unique hby
        (((log_inv hreach).publisher c _ ev (Bus.setPc_calls_self _ _ _) rfl).append log)
      rw [hy, ← hx, ← hev]
    · rename_i hroom
      exact (blocked hund hroom).1
  · have hbefore := given_eq hreach p
    have hafter := given_eq hreach₂ p
    rw [given_append, taken_append, htaken, List.append_nil, hbefore, List.append_assoc] at hafter
    exact (List.append_cancel_left hafter).symm

/-- Isolation of consumers under `Drop`, where the full or closed subscriptions come last in
    the iteration order when the call copies the subscribers. In any interleaving in which the
    others leave room on the way, a subscriber of the topic that has room is given the event
    exactly once. If nobody else touches it, its queue afterwards is its own queue before, with
    the event if there was room; so two runs that agree on the subscription give it the same
    events, whatever the others are like. The order is what matters: a call that nobody disturbs
    gives a subscription the event exactly if everybody on the way to it has room. -/
theorem consumer_isolation :
    (Publication config (LeavesRoom c p) c ev order w₁ log w₂ → p ∈ order →
      w₁.FullLast order → w₁.HasRoom p → (directs log c).count p = 1) ∧
    (Publication config (fun w a => LeavesRoom c p w a ∧ Undisturbed c p w a) c ev order
        w₁ log w₂ → p ∈ order → w₁.FullLast order →
      w₂.queue p = w₁.queue p ++ (if w₁.HasRoom p then [⟨c, ev⟩] else []) ∧
      ∀ (config' : Config) (c' : CallId) (order' : List SubPtr) (w₁' w₂' : Bus) (log' : List Obs),
        Publication config' (fun w a => LeavesRoom c' p w a ∧ Undisturbed c' p w a) c' ev order'
          w₁' log' w₂' →
        p ∈ order' → w₁'.FullLast order' → w₁'.subs[p]? = w₁.subs[p]? →
        (given log' p).map Copy.event = (given log p).map Copy.event) ∧
    (Publication config (OnlyCall c) c ev order w₁ log w₂ → p ∈ order →
      (p ∈ directs log c ↔ ∀ q ∈ upTo p order, w₁.HasRoom q)) := by
  refine ⟨fun h hp hlast hroom => ?_, fun h hp hlast => ?_, fun h hp => ⟨fun hdir q hq => ?_, ?_⟩⟩
  · obtain ⟨⟨log₁, hreach⟩, hrun⟩ := h.loop
    have hnodup := directs_nodup (hreach.trans (hrun.mono fun _ _ _ => trivial)) c
    rw [directs_append] at hnodup
    exact List.count_eq_one_of_mem (List.nodup_append.mp hnodup).2.1
      (served h hp fun q => hlast.way hroom hp)
  · obtain ⟨hgiven, hqueue⟩ := given_undisturbed h hp hlast
    refine ⟨hgiven ▸ hqueue, fun config' c' order' w₁' w₂' log' h' hp' hlast' hagree => ?_⟩
    obtain ⟨hgiven', -⟩ := given_undisturbed h' hp' hlast'
    have hroom : w₁'.HasRoom p ↔ w₁.HasRoom p := by simp only [Bus.HasRoom, hagree]
    rw [hgiven, hgiven']
    by_cases hp : w₁.HasRoom p
    · rw [if_pos hp, if_pos (hroom.mpr hp)]
      rfl
    · rw [if_neg hp, if_neg fun h => hp (hroom.mp h)]
  · by_contra hroom
    refine (blocked (h.mono fun w a hk r hr hsame => ?_) hroom).2 p hq hdir
    rw [hk r hr hsame]
  · refine fun hway => served (h.mono fun w a hk r hr hsame _ _ _ q _ => ?_) hp hway
    simp only [Bus.HasRoom, hk r hr hsame, imp_self]

/-- A publication that runs. -/
theorem publication_of_run (config : Config) (c : CallId) (ev : Event) (order : List SubPtr)
    {K : Bus → Action → Prop} [∀ w a, Decidable (K w a)] (hdrop : config.backpressure = .drop)
    (r : Ret) (pre actions : List Action) {Q : Bus → Bus → List Obs → Prop}
    (h : ∃ r₁ ∈ (Bus.lts config).runWhere Lts.Always (new config) pre,
      r₁.1.calls c = some (.publish ev) ∧
      ∃ r₂ ∈ r₁.1.step (.publishEnter c order []), r₂.2 = [.snapshot c order] ∧
      ∃ r₃ ∈ (Bus.lts config).runWhere K r₂.1 actions,
        r₃.1.calls c = some (.returned r) ∧ Q r₁.1 r₃.1 r₃.2) :
    ∃ w₁ log w₂, Publication config K c ev order w₁ log w₂ ∧ Q w₁ w₂ log := by
  obtain ⟨⟨w₁, log₁⟩, hpre, hc, ⟨w, os⟩, hstep, rfl, ⟨w₂, log⟩, hrun, hret, hQ⟩ := h
  refine ⟨w₁, log, w₂, ⟨hdrop, ⟨log₁, new config, rfl, ?_⟩, hc, ⟨[], w, hstep, ?_⟩, r, hret⟩, hQ⟩
  · exact Lts.steps_of_runWhere pre _ _ _ hpre
  · exact Lts.steps_of_runWhere actions _ _ _ hrun

end Runs

/-- Two subscribers with queues of size one, each with an event in its queue; then `receives`
    and the call of another publisher. -/
private def twoSubscribers (receives : List Action) : List Action :=
  Broker.subscribeRun 0 ++ Broker.subscribeRun 1 ++ Broker.publishRun 2 1 [0, 1] ++
    Broker.giveRun 2 ++ Broker.giveRun 2 ++ [Action.publishLeave 2 []] ++ receives ++
    [Action.invoke 3 (.publishWithResult .background ⟨[2], [], [7], [], []⟩)]

/-- The full queue comes last in the iteration order: the call returns `ErrQueueFull`, but the
    subscription with room has the event, as it has where the other queue is empty too. -/
theorem consumer_isolation_full_last :
    ∃ w₁ log w₂,
      Publication ⟨1, 0, 0, .drop⟩ (OnlyCall 3) 3 ⟨[2], [], [7], [], []⟩ [1, 0] w₁ log w₂ ∧
      w₂.calls 3 = some (.returned (.failed .queueFull)) ∧ w₁.FullLast [1, 0] ∧
      (directs log 3).count 1 = 1 ∧ w₂.queue 1 = [⟨3, ⟨[2], [], [7], [], []⟩⟩] ∧
      ¬w₁.HasRoom 0 ∧ 0 ∉ directs log 3 ∧
      ∃ w₁' log' w₂', Publication ⟨1, 0, 0, .drop⟩
          (fun w a => LeavesRoom 3 1 w a ∧ Undisturbed 3 1 w a) 3 ⟨[2], [], [7], [], []⟩ [0, 1]
          w₁' log' w₂' ∧
        w₁'.HasRoom 0 ∧ (given log' 1).map Copy.event = (given log 1).map Copy.event := by
  obtain ⟨w₁, log, w₂, h, hret, hlast, hroom, hempty, hfull, hsub⟩ := publication_of_run
    ⟨1, 0, 0, .drop⟩ 3 ⟨[2], [], [7], [], []⟩ [1, 0]
    (K := fun w a => (LeavesRoom 3 1 w a ∧ Undisturbed 3 1 w a) ∧ OnlyCall 3 w a) rfl
    (.failed .queueFull) (twoSubscribers [.receive 1]) (Broker.giveRun 3 ++ Broker.refuseRun 3)
    (Q := fun w₁ w₂ _ => w₂.calls 3 = some (.returned (.failed .queueFull)) ∧
      w₁.FullLast [1, 0] ∧ w₁.HasRoom 1 ∧ w₁.queue 1 = [] ∧ ¬w₁.HasRoom 0 ∧
      w₁.subs[1]? = some (newSubscription [7] 2 1))
    (by decide)
  obtain ⟨w₁', log', w₂', h', hlast', hroom', hsub'⟩ := publication_of_run
    ⟨1, 0, 0, .drop⟩ 3 ⟨[2], [], [7], [], []⟩ [0, 1]
    (K := fun w a => LeavesRoom 3 1 w a ∧ Undisturbed 3 1 w a) rfl .published
    (twoSubscribers [.receive 1, .receive 0])
    (Broker.giveRun 3 ++ Broker.giveRun 3 ++ [Action.publishLeave 3 []])
    (Q := fun w₁ _ _ => w₁.FullLast [0, 1] ∧ w₁.HasRoom 0 ∧
      w₁.subs[1]? = some (newSubscription [7] 2 1))
    (by decide)
  have halone := h.mono (H := OnlyCall 3) fun _ _ hk => hk.2
  have hguard := h.mono (H := fun w a => LeavesRoom 3 1 w a ∧ Undisturbed 3 1 w a)
    fun _ _ hk => hk.1
  have hone := consumer_isolation.1 (hguard.mono (H := LeavesRoom 3 1) fun _ _ hk => hk.1)
    (by simp) hlast hroom
  obtain ⟨hqueue, htwo⟩ := consumer_isolation.2.1 hguard (by simp) hlast
  rw [if_pos hroom, hempty] at hqueue
  refine ⟨w₁, log, w₂, halone, hret, hlast, hone, hqueue, hfull, fun hdir => hfull ?_,
    w₁', log', w₂', h', hroom', ?_⟩
  · exact (consumer_isolation.2.2 halone (by simp)).mp hdir 0 (by decide)
  · exact htwo _ _ _ _ _ _ h' (by simp) hlast' (hsub'.trans hsub.symm)

/-- The full queue comes first: the subscription behind it has room and gets nothing. Had the
    other queue not been full, it would have got the event. -/
theorem consumer_starved :
    ∃ w₁ log w₂ w₁' log' w₂',
      Publication ⟨1, 0, 0, .drop⟩ (OnlyCall 3) 3 ⟨[2], [], [7], [], []⟩ [0, 1] w₁ log w₂ ∧
      Publication ⟨1, 0, 0, .drop⟩ (OnlyCall 3) 3 ⟨[2], [], [7], [], []⟩ [0, 1] w₁' log' w₂' ∧
      w₁.HasRoom 1 ∧ w₁'.subs[1]? = w₁.subs[1]? ∧
      given log 1 = [] ∧ given log' 1 = [⟨3, ⟨[2], [], [7], [], []⟩⟩] := by
  obtain ⟨w₁, log, w₂, h, hroom, hsub, hnil⟩ := publication_of_run
    ⟨1, 0, 0, .drop⟩ 3 ⟨[2], [], [7], [], []⟩ [0, 1] (K := OnlyCall 3) rfl (.failed .queueFull)
    (twoSubscribers [.receive 1]) (Broker.refuseRun 3)
    (Q := fun w₁ _ log => w₁.HasRoom 1 ∧ w₁.subs[1]? = some (newSubscription [7] 2 1) ∧
      given log 1 = [])
    (by decide)
  obtain ⟨w₁', log', w₂', h', hsub', hgiven⟩ := publication_of_run
    ⟨1, 0, 0, .drop⟩ 3 ⟨[2], [], [7], [], []⟩ [0, 1] (K := OnlyCall 3) rfl .published
    (twoSubscribers [.receive 1, .receive 0])
    (Broker.giveRun 3 ++ Broker.giveRun 3 ++ [Action.publishLeave 3 []])
    (Q := fun w₁ _ log => w₁.subs[1]? = some (newSubscription [7] 2 1) ∧
      given log 1 = [⟨3, ⟨[2], [], [7], [], []⟩⟩])
    (by decide)
  exact ⟨w₁, log, w₂, w₁', log', w₂', h, h', hroom, hsub'.trans hsub.symm, hnil, hgiven⟩

end EventBus
