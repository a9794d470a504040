import EventBus.Spec.BrokerStep

/-!
# The registry of subscriptions

`b.topics` maps topics to the subscriptions registered for them. Every registered
subscription is entered under its own topic and id, so that `Subscription.Close`
removes exactly itself, and a subscription that some call has begun to close is no
longer registered. Registration happens once, when the subscription is created:
a subscription that has left the registry never comes back.

## Key results

- `registry_inv`: the registry invariant holds in every reachable state
- `unregistered_step`: leaving the registry is permanent
- `registered_nodup`: a topic lists each of its subscriptions once
-/

namespace EventBus

variable {i : UInt64} {b' : Broker} {w w₁ w' : Bus} {c : CallId} {a : Action} {pc pc' : Pc}
  {os : List Obs}

namespace Broker

variable (b : Broker) (topic topic' : Bytes) (id : UInt64) (p q : SubPtr)

/-! ## Lookup in the registry -/

/-- `p` is entered in `b.topics[topic]` under `id`. -/
def EntryAt (b : Broker) (topic : Bytes) (id : UInt64) (p : SubPtr) : Prop :=
  ∃ m, b.topics.lookup topic = some m ∧ m.lookup id = some p

/-- The registered subscriptions are those entered under some id. -/
theorem mem_registered : p ∈ b.registered topic ↔ ∃ id, b.EntryAt topic id p := by
  simp only [registered, EntryAt]
  cases b.topics.lookup topic with
  | none => simp
  | some m =>
    simp only [List.mem_map, Option.some.injEq, exists_eq_left']
    constructor
    · rintro ⟨⟨i, q⟩, hmem, rfl⟩
      exact ⟨i, AList.mem_lookup_iff.mpr hmem⟩
    · rintro ⟨i, hi⟩
      exact ⟨⟨i, p⟩, AList.mem_lookup_iff.mp hi, rfl⟩

/-- All registered subscriptions are registered for some topic. -/
theorem mem_allRegistered : p ∈ b.allRegistered ↔ ∃ topic, p ∈ b.registered topic := by
  simp only [allRegistered, List.mem_flatMap]
  constructor
  · rintro ⟨⟨t, m⟩, hmem, hp⟩
    have hl : b.topics.lookup t = some m := AList.mem_lookup_iff.mpr hmem
    exact ⟨t, by simpa only [registered, hl] using hp⟩
  · rintro ⟨t, hp⟩
    cases hl : b.topics.lookup t with
    | none => simp [registered, hl] at hp
    | some m =>
      exact ⟨⟨t, m⟩, AList.mem_lookup_iff.mp hl, by simpa only [registered, hl] using hp⟩

/-- After `register`, an entry is the new one or an old one. -/
theorem entryAt_register (h : (b.register topic id q).EntryAt topic' i p) :
    (topic' = topic ∧ i = id ∧ p = q) ∨ b.EntryAt topic' i p := by
  obtain ⟨m, hm, hp⟩ := h
  by_cases ht : topic' = topic
  · subst ht
    simp only [register, AList.lookup_insert, Option.some.injEq] at hm
    subst hm
    by_cases hi : i = id
    · subst hi
      simp only [AList.lookup_insert, Option.some.injEq] at hp
      exact .inl ⟨rfl, rfl, hp.symm⟩
    · rw [AList.lookup_insert_ne hi] at hp
      cases hl : b.topics.lookup topic' with
      | none => simp [hl] at hp
      | some m₀ => exact .inr ⟨m₀, hl, by simpa [hl] using hp⟩
  · simp only [register, AList.lookup_insert_ne ht] at hm
    exact .inr ⟨m, hm, hp⟩

/-- After `deregister`, an entry is an old one that was not removed. -/
theorem entryAt_deregister (h : (b.deregister topic id).EntryAt topic' i p) :
    b.EntryAt topic' i p ∧ ¬(topic' = topic ∧ i = id) := by
  obtain ⟨m, hm, hp⟩ := h
  simp only [deregister] at hm
  split at hm
  · rename_i hnone
    refine ⟨⟨m, hm, hp⟩, ?_⟩
    rintro ⟨rfl, -⟩
    rw [hnone] at hm
    cases hm
  · rename_i m₀ hm₀
    by_cases ht : topic' = topic
    · subst ht
      split at hm
      · simp at hm
      · simp only [AList.lookup_insert, Option.some.injEq] at hm
        subst hm
        by_cases hi : i = id
        · subst hi
          simp at hp
        · rw [AList.lookup_erase_ne hi] at hp
          exact ⟨⟨m₀, hm₀, hp⟩, fun h => hi h.2⟩
    · have hm' : b.topics.lookup topic' = some m := by
        split at hm
        · rwa [AList.lookup_erase_ne ht] at hm
        · rwa [AList.lookup_insert_ne ht] at hm
      exact ⟨⟨m, hm', hp⟩, fun h => ht h.1⟩

/-! ## Sections that leave the registry alone -/

@[simp] theorem takeCached_topics (n : Nat) : (b.takeCached topic n).topics = b.topics := by
  simp only [takeCached]; split <;> [rfl; (split <;> rfl)]

@[simp] theorem takeCached_config (n : Nat) : (b.takeCached topic n).config = b.config := by
  simp only [takeCached]; split <;> [rfl; (split <;> rfl)]

@[simp] theorem deregister_config : (b.deregister topic id).config = b.config := by
  simp only [deregister]; split <;> [rfl; (split <;> rfl)]

@[simp] theorem cacheEvent_topics (x : Copy) : (b.cacheEvent x).topics = b.topics := by
  simp only [cacheEvent]; split <;> [rfl; (split <;> rfl)]

@[simp] theorem cacheEvent_config (x : Copy) : (b.cacheEvent x).config = b.config := by
  simp only [cacheEvent]; split <;> [rfl; (split <;> rfl)]

@[simp] theorem cacheEvent_dedup (x : Copy) : (b.cacheEvent x).dedup = b.dedup := by
  simp only [cacheEvent]; split <;> [rfl; (split <;> rfl)]

@[simp] theorem cacheEvent_draining (x : Copy) : (b.cacheEvent x).draining = b.draining := by
  simp only [cacheEvent]; split <;> [rfl; (split <;> rfl)]

/-- `remember` changes nothing but `b.dedup`. -/
theorem remember_frame {b : Broker} {topic id oldest : Bytes}
    (h : b.remember topic id oldest = some b') :
    b'.topics = b.topics ∧ b'.cache = b.cache ∧ b'.config = b.config ∧
    b'.closed = b.closed ∧ b'.draining = b.draining := by
  simp only [remember] at h
  split at h
  · obtain rfl := Option.some.inj h; exact ⟨rfl, rfl, rfl, rfl, rfl⟩
  split at h
  · split at h
    · obtain rfl := Option.some.inj h; exact ⟨rfl, rfl, rfl, rfl, rfl⟩
    · cases h
  · obtain rfl := Option.some.inj h; exact ⟨rfl, rfl, rfl, rfl, rfl⟩

/-- The entries depend on `b.topics` only. -/
theorem entryAt_congr {b : Broker} (h : b'.topics = b.topics) (topic : Bytes) (id : UInt64)
    (p : SubPtr) : b'.EntryAt topic id p ↔ b.EntryAt topic id p := by
  simp only [EntryAt, h]

end Broker

/-! ## How a subscription changes -/

/-- `sub'` is a later state of the subscription `sub`. -/
structure Subscription.Later (sub sub' : Subscription) : Prop where
  topic : sub'.topic = sub.topic
  id : sub'.id = sub.id
  cap : sub'.events.cap = sub.events.cap
  closed : sub.closed = true → sub'.closed = true
  ended : sub.events.closed = true → sub'.events.closed = true
  entered : sub.once ≠ .fresh → sub'.once ≠ .fresh

theorem Subscription.Later.refl (sub : Subscription) : sub.Later sub :=
  ⟨rfl, rfl, rfl, fun h => h, fun h => h, fun h => h⟩

private theorem later_set {subs : List Subscription} {s : SubPtr} {sub₀ sub₁ : Subscription}
    (hs : subs[s]? = some sub₀) (hl : sub₀.Later sub₁) (p : SubPtr) (sub : Subscription)
    (hp : subs[p]? = some sub) : ∃ sub', (subs.set s sub₁)[p]? = some sub' ∧ sub.Later sub' := by
  by_cases h : p = s
  · subst h
    rw [hs] at hp
    cases hp
    exact ⟨sub₁, List.getElem?_set_of_eq_some hs, hl⟩
  · exact ⟨sub, by rw [List.getElem?_set_ne (Ne.symm h), hp], .refl sub⟩

/-- A move leaves every subscription in place, in a later state. -/
theorem Move.later (h : Move w c a pc pc' w₁ os) (p : SubPtr) (sub : Subscription)
    (hp : w.subs[p]? = some sub) : ∃ sub', w₁.subs[p]? = some sub' ∧ sub.Later sub' := by
  cases h with
  | enqueueEnter hs | enqueueReturn hs | enqueueFail hs =>
    refine later_set hs ?_ p sub hp
    exact ⟨rfl, rfl, rfl, id, id, id⟩
  | enqueueSend hs hsend =>
    obtain ⟨hopen, -, -, hcap, -⟩ := Chan.send_done hsend
    refine later_set hs ?_ p sub hp
    exact ⟨rfl, rfl, hcap, id, by simp [hopen], id⟩
  | subscribe =>
    refine ⟨sub, ?_, .refl sub⟩
    rw [List.getElem?_append_left (List.getElem?_eq_some_iff.mp hp).1, hp]
  | closeOnce hs =>
    refine later_set hs ?_ p sub hp
    exact ⟨rfl, rfl, rfl, id, id, by simp⟩
  | closeMark hs =>
    refine later_set hs ?_ p sub hp
    exact ⟨rfl, rfl, rfl, fun _ => rfl, id, id⟩
  | closeDiscard hs hrecv =>
    obtain ⟨-, hcap, hcl⟩ := Chan.receive_some hrecv
    refine later_set hs ?_ p sub hp
    exact ⟨rfl, rfl, hcap, id, fun h => hcl.trans h, id⟩
  | closeEvents hs hclose =>
    obtain ⟨-, -, hcap, hcl⟩ := Chan.close_done hclose
    refine later_set hs ?_ p sub hp
    exact ⟨rfl, rfl, hcap, id, fun _ => hcl, by simp⟩
  | _ => exact ⟨sub, hp, .refl sub⟩

/-- A step leaves every subscription in place, in a later state. -/
theorem Effect.later (h : Effect w a w' os) (p : SubPtr) (sub : Subscription)
    (hp : w.subs[p]? = some sub) :
    ∃ sub', w'.subs[p]? = some sub' ∧ sub.Later sub' := by
  cases h with
  | call _ hm => exact hm.later p sub hp
  | receive hs hrecv =>
    obtain ⟨-, hcap, hcl⟩ := Chan.receive_some hrecv
    refine later_set hs ?_ p sub hp
    exact ⟨rfl, rfl, hcap, id, fun h => hcl.trans h, id⟩
  | _ => exact ⟨sub, hp, .refl sub⟩

/-- Subscriptions are never removed. -/
theorem Effect.alloc (h : Effect w a w' os) {p : SubPtr} (hp : p < w.subs.length) :
    p < w'.subs.length := by
  obtain ⟨sub', hs', -⟩ := h.later p _ (List.getElem?_eq_getElem hp)
  exact (List.getElem?_eq_some_iff.mp hs').1

/-! ## The registry invariant -/

/-- The subscriptions a call is closing or is going to close. -/
def Pc.closing : Pc → List SubPtr
  | .closeOnce s _ rest | .closeMark s _ rest | .closeWait s _ rest => s :: rest
  | .closeDiscard s rest | .closeEvents s rest => s :: rest
  | _ => []

/-- The subscriptions a publisher still has to send to. -/
def Pc.targets : Pc → List SubPtr
  | .fanOut _ todo => todo
  | .enqueueEntered _ s todo | .enqueueSelect _ s todo | .enqueueExit _ s todo _ => s :: todo
  | _ => []

/-- The event a publisher publishes. -/
def Pc.event : Pc → Option Event
  | .publish ev | .fanOut ev _ => some ev
  | .enqueueEntered ev _ _ | .enqueueSelect ev _ _ | .enqueueExit ev _ _ _ => some ev
  | _ => none

@[simp] theorem Pc.targets_closeNext (rest : List SubPtr) : (Pc.closeNext rest).targets = [] := by
  cases rest <;> rfl

@[simp] theorem Pc.event_closeNext (rest : List SubPtr) : (Pc.closeNext rest).event = none := by
  cases rest <;> rfl

@[simp] theorem Pc.closing_closeNext (rest : List SubPtr) : (Pc.closeNext rest).closing = rest := by
  cases rest <;> rfl

/-- `p` is not registered for any topic. -/
def Bus.Unregistered (w : Bus) (p : SubPtr) : Prop := ∀ topic id, ¬w.broker.EntryAt topic id p

theorem Bus.unregistered_iff (w : Bus) (p : SubPtr) :
    w.Unregistered p ↔ ∀ topic, p ∉ w.broker.registered topic := by
  simp only [Unregistered, Broker.mem_registered, not_exists]

/-- The registry invariant. -/
structure Bus.RegistryInv (w : Bus) : Prop where
  /-- A registered subscription is entered under its own topic and id. -/
  own : ∀ topic id p, w.broker.EntryAt topic id p →
    ∃ sub, w.subs[p]? = some sub ∧ sub.topic = topic ∧ sub.id = id
  /-- Publishers send to subscriptions that exist. -/
  targets : ∀ c pc p, w.calls c = some pc → p ∈ pc.targets → p < w.subs.length
  /-- What a call closes is not registered. -/
  closing : ∀ c pc p, w.calls c = some pc → p ∈ pc.closing →
    p < w.subs.length ∧ w.Unregistered p
  /-- A subscription whose `Do` has been entered is not registered. -/
  entered : ∀ p sub, w.subs[p]? = some sub → sub.once ≠ .fresh → w.Unregistered p

/-- Every entry after a move was there before, or is that of the subscription just created. -/
private theorem Move.entryAt (h : Move w c a pc pc' w₁ os) {topic : Bytes} {id : UInt64}
    {p : SubPtr} (he : w₁.broker.EntryAt topic id p) :
    w.broker.EntryAt topic id p ∨
      (p = w.subs.length ∧ id = w.broker.sequence + 1 ∧
        ∃ events, w₁.subs[p]? = some (w.subscribeNew topic events)) := by
  cases h with
  | publishCached _ _ _ _ hrem =>
    rw [Bus.setBroker_broker, Broker.entryAt_congr (Broker.remember_frame hrem).1,
      Broker.entryAt_congr (Broker.cacheEvent_topics _ _)] at he
    exact .inl he
  | publishLeave hrem =>
    rw [Bus.setBroker_broker, Broker.entryAt_congr (Broker.remember_frame hrem).1] at he
    exact .inl he
  | @subscribe t events =>
    simp only [Bus.subscribeBroker] at he
    rw [Broker.entryAt_congr (Broker.takeCached_topics _ _ _)] at he
    rcases Broker.entryAt_register _ _ _ _ _ _ he with ⟨rfl, rfl, rfl⟩ | hold
    · exact .inr ⟨rfl, rfl, events, by simp⟩
    · exact .inl hold
  | closeDeregister => exact .inl (Broker.entryAt_deregister _ _ _ _ _ he).1
  | closeBroker =>
    obtain ⟨m, hm, -⟩ := he
    simp at hm
  | _ => exact .inl he

/-- Every entry after a step was there before, or is that of the subscription just created. -/
theorem Effect.entryAt (h : Effect w a w' os) {topic : Bytes} {id : UInt64} {p : SubPtr}
    (he : w'.broker.EntryAt topic id p) :
    w.broker.EntryAt topic id p ∨
      (p = w.subs.length ∧ id = w.broker.sequence + 1 ∧
        ∃ events, w'.subs[p]? = some (w.subscribeNew topic events)) := by
  cases h with
  | call _ hm => exact hm.entryAt he
  | _ => exact .inl he

/-- A subscription that exists and is not registered stays so. -/
theorem unregistered_step (h : Effect w a w' os) {p : SubPtr} (halloc : p < w.subs.length)
    (hun : w.Unregistered p) : w'.Unregistered p := by
  intro topic id he
  rcases h.entryAt he with hold | ⟨rfl, -⟩
  · exact hun topic id hold
  · exact Nat.lt_irrefl _ halloc

/-- A quiet move closes nothing new. -/
private theorem Quiet.closing (h : Quiet w c a pc pc') {p : SubPtr} (hp : p ∈ pc'.closing) :
    p ∈ pc.closing := by
  cases h with
  | closeOnceAfter =>
    rw [Pc.closing_closeNext] at hp
    exact List.mem_cons_of_mem _ hp
  | @closeWait s drain rest => cases drain <;> exact hp
  | closeDiscardEmpty => exact hp
  | _ => simp [Pc.closing] at hp

/-- What a call closes after its move it closed before, or the move has taken it out of
    the registry. -/
private theorem Move.closing (h : Move w c a pc pc' w₁ os) (hinv : w.RegistryInv) {p : SubPtr}
    (hp : p ∈ pc'.closing) : p ∈ pc.closing ∨ (p < w.subs.length ∧ w₁.Unregistered p) := by
  cases h with
  | quiet hq => exact .inl (hq.closing hp)
  | @closeDeregister s sub hs =>
    -- `Subscription.Close` removes its own entry, the only one it can have
    simp only [Pc.closing, List.mem_singleton] at hp
    subst hp
    refine .inr ⟨(List.getElem?_eq_some_iff.mp hs).1, fun topic id he => ?_⟩
    obtain ⟨hold, hne⟩ := Broker.entryAt_deregister _ _ _ _ _ he
    obtain ⟨sub', hs', ht, hi⟩ := hinv.own topic id _ hold
    rw [hs] at hs'
    cases hs'
    exact hne ⟨ht.symm, hi.symm⟩
  | @closeBroker order _ hperm =>
    -- `Broker.Close` empties the registry
    rw [Pc.closing_closeNext] at hp
    obtain ⟨topic, hreg⟩ := (Broker.mem_allRegistered _ _).mp (hperm.mem_iff.mp hp)
    obtain ⟨id, he⟩ := (Broker.mem_registered _ _ _).mp hreg
    obtain ⟨sub, hs, -⟩ := hinv.own topic id p he
    refine .inr ⟨(List.getElem?_eq_some_iff.mp hs).1, fun _ _ he' => ?_⟩
    obtain ⟨m, hm, -⟩ := he'
    simp at hm
  | closeOnce | closeMark | closeDiscard | closeDiscardSpin => exact .inl hp
  | closeEvents =>
    rw [Pc.closing_closeNext] at hp
    exact .inl (List.mem_cons_of_mem _ hp)
  | _ => simp [Pc.closing] at hp

/-- A publisher's targets come from its snapshot of the registry. -/
theorem Move.targets (h : Move w c a pc pc' w₁ os) {p : SubPtr} (hp : p ∈ pc'.targets) :
    p ∈ pc.targets ∨ ∃ ev, pc'.event = some ev ∧ p ∈ w.broker.registered ev.topic := by
  cases h with
  | quiet hq =>
    cases hq with
    | enqueueCheckDone | enqueueCheckOpen | enqueueCtx | enqueueDone | enqueueFull =>
      exact .inl hp
    | closeOnceAfter => simp at hp
    | @closeWait _ drain => cases drain <;> simp [Pc.targets] at hp
    | _ => simp [Pc.targets] at hp
  | @publishSnapshot _ _ ev _ _ _ hperm => exact .inr ⟨ev, rfl, hperm.mem_iff.mp hp⟩
  | enqueueEnter | enqueueSend => exact .inl hp
  | enqueueReturn => exact .inl (List.mem_cons_of_mem _ hp)
  | closeBroker | closeEvents => simp at hp
  | _ => simp [Pc.targets] at hp

/-- A move enters `Do` only for a subscription its call is closing. -/
private theorem Move.entered (h : Move w c a pc pc' w₁ os) {p : SubPtr} {sub : Subscription}
    (hs : w₁.subs[p]? = some sub) (hne : sub.once ≠ .fresh) :
    p ∈ pc.closing ∨ ∃ sub₀, w.subs[p]? = some sub₀ ∧ sub₀.once ≠ .fresh := by
  cases h with
  | enqueueEnter hs₀ | enqueueReturn hs₀ | enqueueFail hs₀ | enqueueSend hs₀ | closeMark hs₀
  | closeDiscard hs₀ =>
    rcases List.getElem?_set_cases hs with ⟨rfl, rfl⟩ | ⟨-, hold⟩
    · exact .inr ⟨_, hs₀, hne⟩
    · exact .inr ⟨sub, hold, hne⟩
  | closeOnce | closeEvents =>
    rcases List.getElem?_set_cases hs with ⟨rfl, -⟩ | ⟨-, hold⟩
    · exact .inl (by simp [Pc.closing])
    · exact .inr ⟨sub, hold, hne⟩
  | subscribe =>
    rcases List.getElem?_concat_cases hs with hold | ⟨-, rfl⟩
    · exact .inr ⟨sub, hold, hne⟩
    · exact absurd rfl hne
  | _ => exact .inr ⟨sub, hs, hne⟩

/-- Every step keeps the registry invariant. -/
theorem registry_step (h : Effect w a w' os) (hinv : w.RegistryInv) : w'.RegistryInv where
  own topic id p he := by
    rcases h.entryAt he with hold | ⟨-, rfl, events, hs⟩
    · obtain ⟨sub, hs, ht, hi⟩ := hinv.own topic id p hold
      obtain ⟨sub', hs', hl⟩ := h.later p sub hs
      exact ⟨sub', hs', hl.topic.trans ht, hl.id.trans hi⟩
    · exact ⟨_, hs, rfl, rfl⟩
  targets c pc p hpc hp := by
    rcases h.cases_call c with ⟨hsame, -⟩ | ⟨op, -, hpc', -⟩ | ⟨pc₀, pc', w₁, hpc₀, hm, rfl⟩
    · exact h.alloc (hinv.targets c pc p (hsame ▸ hpc) hp)
    · obtain rfl := Option.some.inj (hpc'.symm.trans hpc)
      cases op <;> simp [Op.start, Pc.targets] at hp
    · obtain rfl := Option.some.inj ((Bus.setPc_calls_self _ _ _).symm.trans hpc)
      rcases hm.targets hp with hold | ⟨ev, -, hreg⟩
      · exact h.alloc (hinv.targets c pc₀ p hpc₀ hold)
      · -- a target that `Publish` copies is in the registry
        obtain ⟨id, he⟩ := (Broker.mem_registered _ _ _).mp hreg
        obtain ⟨sub, hs, -⟩ := hinv.own _ id p he
        exact h.alloc (List.getElem?_eq_some_iff.mp hs).1
  closing c pc p hpc hp := by
    -- a subscription that is out of the registry never comes back
    have hstay : ∀ pc₀, w.calls c = some pc₀ → p ∈ pc₀.closing →
        p < w'.subs.length ∧ w'.Unregistered p := fun pc₀ h₀ hp₀ =>
      ⟨h.alloc (hinv.closing c pc₀ p h₀ hp₀).1,
        unregistered_step h (hinv.closing c pc₀ p h₀ hp₀).1 (hinv.closing c pc₀ p h₀ hp₀).2⟩
    rcases h.cases_call c with ⟨hsame, -⟩ | ⟨op, -, hpc', -⟩ | ⟨pc₀, pc', w₁, hpc₀, hm, rfl⟩
    · exact hstay pc (hsame ▸ hpc) hp
    · obtain rfl := Option.some.inj (hpc'.symm.trans hpc)
      cases op <;> simp [Op.start, Pc.closing] at hp
    · obtain rfl := Option.some.inj ((Bus.setPc_calls_self _ _ _).symm.trans hpc)
      rcases hm.closing hinv hp with hold | ⟨halloc, hun⟩
      · exact hstay pc₀ hpc₀ hold
      · exact ⟨h.alloc halloc, hun⟩
  entered p sub hs hne := by
    have hstay : ∀ sub₀, w.subs[p]? = some sub₀ → sub₀.once ≠ .fresh → w'.Unregistered p :=
      fun sub₀ hs₀ hne₀ =>
        unregistered_step h (List.getElem?_eq_some_iff.mp hs₀).1 (hinv.entered p sub₀ hs₀ hne₀)
    cases h with
    | call hpc₀ hm =>
      rcases hm.entered hs hne with hcl | ⟨sub₀, hs₀, hne₀⟩
      · obtain ⟨halloc, hun⟩ := hinv.closing _ _ p hpc₀ hcl
        exact unregistered_step (Effect.call hpc₀ hm) halloc hun
      · exact hstay sub₀ hs₀ hne₀
    | receive hs₀ =>
      rcases List.getElem?_set_cases hs with ⟨rfl, rfl⟩ | ⟨-, hold⟩
      · exact hstay _ hs₀ hne
      · exact hstay sub hold hne
    | _ => exact hstay sub hs hne

/-- The registry invariant holds in every reachable state. -/
theorem registry_inv {config : Config} {G : Bus → Action → Prop} {log : List Obs}
    (h : (Bus.lts config).Reach G log w) : w.RegistryInv := by
  refine h.invariant (P := fun _ w => w.RegistryInv) ?_ ?_
  · rintro _ rfl
    refine ⟨?_, ?_, ?_, ?_⟩
    · rintro topic id p ⟨m, hm, -⟩
      simp [new] at hm
    · intro c pc p hpc
      simp [new] at hpc
    · intro c pc p hpc
      simp [new] at hpc
    · intro p sub hs
      simp [new] at hs
  · intro log w a w' os hinv _ hs
    exact registry_step (step_effect hs) hinv

/-- A topic lists each of its subscriptions once. -/
theorem registered_nodup (hinv : w.RegistryInv) (topic : Bytes) :
    (w.broker.registered topic).Nodup := by
  cases hl : w.broker.topics.lookup topic with
  | none => simp [Broker.registered, hl]
  | some m =>
    simp only [Broker.registered, hl]
    -- two entries with one subscription have its id as their key
    refine List.Nodup.map_on ?_ m.nodupKeys.nodup
    rintro ⟨i, p⟩ hi ⟨j, q⟩ hj hpq
    obtain rfl : p = q := hpq
    obtain ⟨sub, hs, -, rfl⟩ := hinv.own topic i p ⟨m, hl, AList.mem_lookup_iff.mpr hi⟩
    obtain ⟨sub', hs', -, rfl⟩ := hinv.own topic j p ⟨m, hl, AList.mem_lookup_iff.mpr hj⟩
    rw [hs] at hs'
    cases hs'
    rfl

end EventBus
