import EventBus.Spec.BrokerRegistry

/-!
# Reading the log of a broker

The log of a run says which events entered and left the queue of each subscription and
what each call did. This module relates these histories to the state the run ends in:
queues are first-in first-out, every event in a queue or in the topic cache was
published by some call for that topic, and a call is invoked and returns at most once.

## Key results

- `given_eq`: what was put in a queue is what was taken from it, then what it holds
- `log_inv`: where the calls and the events of a reachable state come from
-/

namespace EventBus

variable {x : Copy} {log : List Obs} {config : Config} {G : Bus → Action → Prop} {w : Bus}
  {r : Ret} {op : Op}

/-! ## The topic cache -/

namespace Broker

variable (b : Broker) (topic t : Bytes)

/-- What is left of the cache of a topic when one more event enters it. -/
def kept : List Copy :=
  if b.config.cacheSize ≤ (b.cached topic).length then (b.cached topic).tail else b.cached topic

theorem kept_sublist : (b.kept topic).Sublist (b.cached topic) := by
  simp only [kept]
  split
  · exact List.tail_sublist _
  · exact .refl _

theorem cached_cacheEvent (x : Copy) :
    (b.cacheEvent x).cached t =
      if b.config.cacheSize ≠ 0 ∧ t = x.event.topic then b.kept t ++ [x] else b.cached t := by
  simp only [cacheEvent]
  split
  · simp [*]
  · rename_i hsize
    by_cases ht : t = x.event.topic
    · subst ht
      simp only [kept, hsize, ne_eq, not_false_eq_true, and_self, if_true]
      split <;> simp [cached]
    · split <;> simp [cached, AList.lookup_insert_ne ht, ht]

theorem cached_takeCached (n : Nat) :
    (b.takeCached topic n).cached t =
      if t = topic then (b.cached topic).drop n else b.cached t := by
  simp only [takeCached]
  split
  · rename_i hnil
    split
    · subst_vars; simp [hnil]
    · rfl
  split
  · rename_i hn
    split
    · subst_vars; simp [cached]
    · rename_i ht
      simp [cached, AList.lookup_erase_ne ht]
  · split
    · subst_vars; simp [cached]
    · rename_i ht
      simp [cached, AList.lookup_insert_ne ht]

theorem cached_congr {b b' : Broker} (h : b'.cache = b.cache) (t : Bytes) :
    b'.cached t = b.cached t := by
  simp only [cached, h]

@[simp] theorem deregister_cache (id : UInt64) : (b.deregister topic id).cache = b.cache := by
  simp only [deregister]
  split
  · rfl
  · split <;> rfl

end Broker

/-- `Subscribe` leaves what it does not replay in the topic's cache. -/
theorem Bus.subscribeBroker_cached (w : Bus) (topic : Bytes) :
    (w.subscribeBroker topic).cached topic = (w.broker.cached topic).drop
      (min (w.broker.cached topic).length w.broker.config.queueSize) := by
  simp only [Bus.subscribeBroker, Broker.cached_takeCached, if_true]
  rfl

/-- `Subscribe` takes what it replays off the front of the topic's cache. -/
theorem Bus.replayed_append (w : Bus) (topic : Bytes) :
    w.replayed topic ++ (w.subscribeBroker topic).cached topic = w.broker.cached topic := by
  rw [w.subscribeBroker_cached, Bus.replayed, List.take_append_drop]

theorem Bus.subscribeBroker_cached_ne (w : Bus) {topic t : Bytes} (h : t ≠ topic) :
    (w.subscribeBroker topic).cached t = w.broker.cached t := by
  simp only [Bus.subscribeBroker, Broker.cached_takeCached, h, if_false]
  rfl

/-! ## Queues -/

/-- The events put in the queue of `p`, oldest first. -/
def given (log : List Obs) (p : SubPtr) : List Copy :=
  log.filterMap fun
    | .put s x _ => if s = p then some x else none
    | _ => none

/-- The events received or discarded from the queue of `p`, oldest first. -/
def taken (log : List Obs) (p : SubPtr) : List Copy :=
  log.filterMap fun
    | .received s x | .discarded s x => if s = p then some x else none
    | _ => none

/-- What the queue of `p` holds. -/
def Bus.queue (w : Bus) (p : SubPtr) : List Copy := (w.subs[p]?.map (·.events.buf)).getD []

section Queues

variable {w' : Bus} {c : CallId} {a : Action} {os : List Obs} {p s : SubPtr} {sub : Subscription}

@[simp] theorem given_append (log log' : List Obs) :
    given (log ++ log') p = given log p ++ given log' p :=
  List.filterMap_append

@[simp] theorem taken_append (log log' : List Obs) :
    taken (log ++ log') p = taken log p ++ taken log' p :=
  List.filterMap_append

theorem mem_given :
    x ∈ given log p ↔ ∃ route, .put p x route ∈ log := by
  simp only [given, List.mem_filterMap]
  constructor
  · rintro ⟨o, ho, hx⟩
    split at hx
    · simp only [Option.ite_none_right_eq_some, Option.some.injEq] at hx
      obtain ⟨rfl, rfl⟩ := hx
      exact ⟨_, ho⟩
    · cases hx
  · rintro ⟨route, ho⟩
    exact ⟨_, ho, by simp⟩

/-- A step that reports no `put` gives nothing. -/
theorem given_eq_nil (h : ∀ x route, .put p x route ∉ os) : given os p = [] := by
  rw [List.eq_nil_iff_forall_not_mem]
  intro x hx
  obtain ⟨route, ho⟩ := mem_given.mp hx
  exact h x route ho

/-- A step that reports neither a receive nor a discard takes nothing. -/
theorem taken_eq_nil (h : ∀ x, .received p x ∉ os ∧ .discarded p x ∉ os) : taken os p = [] := by
  simp only [taken, List.filterMap_eq_nil_iff]
  intro o ho
  split
  · split
    · subst_vars; exact absurd ho (h _).1
    · rfl
  · split
    · subst_vars; exact absurd ho (h _).2
    · rfl
  · rfl

theorem Bus.queue_of (hs : w.subs[p]? = some sub) : w.queue p = sub.events.buf := by
  simp [Bus.queue, hs]

@[simp] theorem Bus.queue_setPc (w : Bus) (c : CallId) (pc : Pc) :
    (w.setPc c pc).queue p = w.queue p := rfl

/-- The queues after one subscription has changed. -/
theorem Bus.queue_setSub {sub' : Subscription} (hs : w.subs[s]? = some sub) :
    (w.setSub s sub').queue p = if p = s then sub'.events.buf else w.queue p := by
  split
  · subst_vars
    simp only [Bus.queue, Bus.setSub_subs, List.getElem?_set_of_eq_some hs, Option.map_some,
      Option.getD_some]
  · rename_i hne
    simp only [Bus.queue, Bus.setSub_subs, List.getElem?_set_ne (Ne.symm hne)]

theorem Bus.queue_ite (hs : w.subs[s]? = some sub) :
    (if p = s then sub.events.buf else w.queue p) = w.queue p := by
  split
  · subst_vars; rw [Bus.queue_of hs]
  · rfl

/-- One step of a call, seen from the queue of `p`. -/
private theorem Move.queue {w₁ : Bus} {pc pc' : Pc} (h : Move w c a pc pc' w₁ os) :
    w.queue p ++ given os p = taken os p ++ (w₁.setPc c pc').queue p := by
  cases h with
  | enqueueEnter hs | enqueueReturn hs | enqueueFail hs | closeOnce hs | closeMark hs =>
    rw [Bus.queue_setPc, Bus.queue_setSub hs, Bus.queue_ite hs, given_eq_nil (by simp),
      taken_eq_nil (by simp), List.append_nil, List.nil_append]
  | closeEvents hs hclose =>
    rw [Bus.queue_setPc, Bus.queue_setSub hs, (Chan.close_done hclose).2.1, Bus.queue_ite hs,
      given_eq_nil (by simp), taken_eq_nil (by simp), List.append_nil, List.nil_append]
  | @enqueueSend ev s todo sub events hs hsend =>
    rw [Bus.queue_setPc, Bus.queue_setSub hs, (Chan.send_done hsend).2.2.1]
    by_cases hp : p = s
    · subst hp
      simp [given, taken, Bus.queue_of hs]
    · simp [given, taken, hp, Ne.symm hp]
  | @closeDiscard s rest sub x events hs hrecv =>
    rw [Bus.queue_setPc, Bus.queue_setSub hs]
    by_cases hp : p = s
    · subst hp
      simp [given, taken, Bus.queue_of hs, (Chan.receive_some hrecv).1]
    · simp [given, taken, hp, Ne.symm hp]
  | @subscribe topic events _ _ hbuf =>
    by_cases hp : p = w.subs.length
    · subst hp
      simp [Bus.queue, given, taken, Bus.subscribeNew, hbuf, List.filterMap_map]
    · simp [Bus.queue, given, taken, List.getElem?_concat_of_ne hp, Ne.symm hp,
        List.filterMap_map]
  | _ => simp [given_eq_nil, taken_eq_nil, Bus.queue]

/-- One step, seen from the queue of `p`: what enters it enters at the back, and what is
    taken is taken from the front. -/
theorem Effect.queue (h : Effect w a w' os) (p : SubPtr) :
    w.queue p ++ given os p = taken os p ++ w'.queue p := by
  cases h with
  | call _ hm => exact hm.queue
  | @receive s sub x events hs hrecv =>
    rw [Bus.queue_setSub hs]
    by_cases hp : p = s
    · subst hp
      simp [given, taken, Bus.queue_of hs, (Chan.receive_some hrecv).1]
    · simp [given, taken, hp, Ne.symm hp]
  | _ => simp [given_eq_nil, taken_eq_nil, Bus.queue]

end Queues

/-- Queues are first-in first-out: what was put in the queue of `p` is what was taken from
    it, followed by what it holds. -/
theorem given_eq (h : (Bus.lts config).Reach G log w) (p : SubPtr) :
    given log p = taken log p ++ w.queue p := by
  refine h.invariant (P := fun log w => given log p = taken log p ++ w.queue p) ?_ ?_
  · rintro _ rfl
    rfl
  · intro log w a w' os ih _ hstep
    rw [given_append, taken_append, ih, List.append_assoc, List.append_assoc,
      (step_effect hstep).queue]

/-! ## Calls -/

/-- Call `c` was invoked to publish `ev`. -/
def PublishedBy (log : List Obs) (c : CallId) (ev : Event) : Prop :=
  ∃ ctx, .invoked c (.publishWithResult ctx ev) ∈ log

/-- Where the calls and the events of a state come from. -/
structure LogInv (log : List Obs) (w : Bus) : Prop where
  invoked : ∀ c op, .invoked c op ∈ log → w.calls c ≠ none
  unique : ∀ c op op', .invoked c op ∈ log → .invoked c op' ∈ log → op = op'
  returned : ∀ c r, .returned c r ∈ log ↔ w.calls c = some (.returned r)
  publisher : ∀ c pc ev, w.calls c = some pc → pc.event = some ev → PublishedBy log c ev
  /-- Publishers send to subscriptions of the topic. -/
  target : ∀ c pc ev p, w.calls c = some pc → pc.event = some ev → p ∈ pc.targets →
    ∃ sub, w.subs[p]? = some sub ∧ sub.topic = ev.topic
  cached : ∀ t x, x ∈ w.broker.cached t → x.event.topic = t ∧ PublishedBy log x.call x.event
  panicked : ∀ c, w.calls c = some .panicked → ∃ p, .panicked p ∈ log
  put : ∀ p x route, .put p x route ∈ log →
    PublishedBy log x.call x.event ∧ ∃ sub, w.subs[p]? = some sub ∧ sub.topic = x.event.topic

section Calls

variable {w' w₁ : Bus} {c : CallId} {a : Action} {pc pc' : Pc} {os : List Obs} {ev : Event}

theorem PublishedBy.append (h : PublishedBy log c ev) (os : List Obs) :
    PublishedBy (log ++ os) c ev := by
  obtain ⟨ctx, ho⟩ := h
  exact ⟨ctx, List.mem_append_left _ ho⟩

/-- A call publishes one event. -/
theorem LogInv.event_unique {ev' : Event} (hinv : LogInv log w) (h : PublishedBy log c ev)
    (h' : PublishedBy log c ev') : ev = ev' := by
  obtain ⟨ctx, ho⟩ := h
  obtain ⟨ctx', ho'⟩ := h'
  exact (Op.publishWithResult.inj (hinv.unique c _ _ ho ho')).2

/-- A move publishes the event its call was publishing. -/
theorem Move.event (h : Move w c a pc pc' w₁ os) (hev : pc'.event = some ev) :
    pc.event = some ev := by
  cases h with
  | quiet hq =>
    cases hq with
    | enqueueCheckDone | enqueueCheckOpen | enqueueCtx | enqueueDone | enqueueFull => exact hev
    | closeOnceAfter => simp at hev
    | @closeWait _ drain => cases drain <;> simp [Pc.event] at hev
    | _ => simp [Pc.event] at hev
  | publishSnapshot | enqueueEnter | enqueueSend | enqueueReturn => exact hev
  | closeBroker | closeEvents => simp at hev
  | _ => simp [Pc.event] at hev

/-- No call moves after it has returned. -/
theorem Move.not_returned (h : Move w c a pc pc' w₁ os) : pc ≠ .returned r := by
  rintro rfl
  cases h with
  | quiet hq => cases hq

/-- A move reports a return exactly when it makes its call return. -/
theorem Move.returned_mem (h : Move w c a pc pc' w₁ os) :
    .returned c r ∈ os ↔ pc' = .returned r := by
  cases h with
  | quiet | closeBroker | closeEvents => simp
  | _ => simp [eq_comm]

/-- A move that panics says so. -/
theorem Move.panicked_mem (h : Move w c a pc pc' w₁ os) (hpc' : pc' = .panicked) :
    ∃ p, .panicked p ∈ os := by
  cases h with
  | quiet hq =>
    cases hq with
    | @closeOnceAfter _ _ rest => cases rest <;> exact nomatch hpc'
    | @closeWait _ drain => cases drain <;> exact nomatch hpc'
    | _ => cases hpc'
  | enqueuePanic | closeMarkPanic | closeEventsPanic => exact ⟨_, List.mem_singleton_self _⟩
  | @closeBroker order => cases order <;> exact nomatch hpc'
  | @closeEvents _ rest => cases rest <;> exact nomatch hpc'
  | _ => cases hpc'

/-- Moves do not invoke calls. -/
theorem Move.not_invoked {d : CallId} (h : Move w c a pc pc' w₁ os) :
    .invoked d op ∉ os := by
  cases h <;> simp

/-- A call is invoked by the action that names it. -/
theorem Effect.invoked_mem (h : Effect w a w' os) (ho : .invoked c op ∈ os) :
    a = .invoke c op := by
  cases h with
  | invoke =>
    obtain ⟨rfl, rfl⟩ := Obs.invoked.inj (List.mem_singleton.mp ho)
    rfl
  | call _ hm => exact absurd ho hm.not_invoked
  | _ => simp at ho

/-- A step does not invoke a call again. -/
theorem not_invoked_again (h : Effect w a w' os) (hc : w.calls c ≠ none) (op : Op) :
    .invoked c op ∉ os := by
  intro ho
  rcases h.cases_call c with ⟨-, hnot⟩ | ⟨op', hnone, -, -⟩ | ⟨pc, pc', w₁, -, hm, -⟩
  · exact hnot _ ho rfl
  · exact hc hnone
  · exact hm.not_invoked ho

theorem Op.start_ne_returned (op : Op) (r : Ret) : op.start ≠ .returned r := by
  cases op <;> simp [Op.start]

/-- The caches after a step: no longer than before, or with the event of a running
    publisher at the end. -/
theorem Effect.cached_cases (h : Effect w a w' os) (t : Bytes) :
    (w'.broker.cached t).Sublist (w.broker.cached t) ∨
      ∃ c ev older, w.calls c = some (.publish ev) ∧ ev.topic = t ∧ .cached ⟨c, ev⟩ ∈ os ∧
        older.Sublist (w.broker.cached t) ∧ w'.broker.cached t = older ++ [⟨c, ev⟩] := by
  cases h with
  | @call c _ _ _ _ _ hpc hm =>
    cases hm with
    | @publishCached oldest ev b _ _ _ _ hrem =>
      have hcache := Broker.cached_congr (Broker.remember_frame hrem).2.1 t
      rw [Bus.setPc_broker, Bus.setBroker_broker, hcache, Broker.cached_cacheEvent]
      split
      · rename_i hnew
        exact .inr ⟨c, ev, _, hpc, hnew.2.symm, by simp [hnew.1], w.broker.kept_sublist t, rfl⟩
      · exact .inl (.refl _)
    | publishLeave hrem =>
      have hcache := Broker.cached_congr (Broker.remember_frame hrem).2.1 t
      exact .inl (by rw [Bus.setPc_broker, Bus.setBroker_broker, hcache])
    | @subscribe topic =>
      refine .inl ?_
      by_cases ht : t = topic
      · -- the replay removes the front of the topic's cache
        subst ht
        conv_rhs => rw [← w.replayed_append t]
        exact List.sublist_append_right _ _
      · rw [Bus.setPc_broker, w.subscribeBroker_cached_ne ht]
    | @closeDeregister s sub =>
      have hcache := Broker.cached_congr (Broker.deregister_cache w.broker sub.topic sub.id) t
      exact .inl (by rw [Bus.setPc_broker, Bus.setBroker_broker, hcache])
    | _ => exact .inl (.refl _)
  | _ => exact .inl (.refl _)

/-- What is cached after a step was cached before, or its publisher has just cached it. -/
theorem Effect.cached (h : Effect w a w' os) {t : Bytes} (hx : x ∈ w'.broker.cached t) :
    x ∈ w.broker.cached t ∨
      (x.event.topic = t ∧ w.calls x.call = some (.publish x.event) ∧ .cached x ∈ os) := by
  rcases h.cached_cases t with hsub | ⟨c, ev, older, hpc, ht, ho, hsub, heq⟩
  · exact .inl (hsub.subset hx)
  · rw [heq] at hx
    rcases List.mem_append.mp hx with hold | hx
    · exact .inl (hsub.subset hold)
    · obtain rfl := List.mem_singleton.mp hx
      exact .inr ⟨ht, hpc, ho⟩

/-- What a step puts in a queue comes from the topic's cache or from its publisher. -/
theorem Effect.put_cases (h : Effect w a w' os) {p : SubPtr} {route : Route}
    (ho : .put p x route ∈ os) :
    (p = w.subs.length ∧ ∃ topic events, x ∈ w.broker.cached topic ∧
      w'.subs[p]? = some (w.subscribeNew topic events)) ∨
      ∃ todo, w.calls x.call = some (.enqueueSelect x.event p todo) := by
  cases h with
  | call hpc hm =>
    cases hm with
    | enqueueSend =>
      simp only [List.mem_singleton, Obs.put.injEq] at ho
      obtain ⟨rfl, rfl, -⟩ := ho
      exact .inr ⟨_, hpc⟩
    | @subscribe topic events =>
      simp only [List.mem_append, List.mem_map, List.mem_singleton, reduceCtorEq, or_false,
        Obs.put.injEq] at ho
      obtain ⟨y, hy, rfl, rfl, -⟩ := ho
      exact .inl ⟨rfl, topic, events, List.mem_of_mem_take hy, by simp⟩
    | _ => simp at ho
  | _ => simp at ho

/-- Every step keeps the account of where calls and events come from. -/
theorem log_step (h : Effect w a w' os) (hreg : w.RegistryInv) (hinv : LogInv log w) :
    LogInv (log ++ os) w' where
  invoked c op ho := by
    rcases h.cases_call c with ⟨hsame, hnot⟩ | ⟨op', -, hpc', -⟩ | ⟨pc, pc', w₁, -, -, rfl⟩
    · rw [hsame]
      rcases List.mem_append.mp ho with ho | ho
      · exact hinv.invoked c op ho
      · exact absurd rfl (hnot _ ho)
    · simp [hpc']
    · simp
  unique c op op' ho ho' := by
    rcases h.cases_call c with ⟨-, hnot⟩ | ⟨op₀, hnone, -, rfl⟩ | ⟨pc, pc', w₁, -, hm, -⟩
    · have hold : ∀ op, .invoked c op ∈ log ++ os → .invoked c op ∈ log := fun op ho =>
        (List.mem_append.mp ho).resolve_right fun ho => hnot _ ho rfl
      exact hinv.unique c op op' (hold op ho) (hold op' ho')
    · -- the call has just been invoked, so the log did not mention it
      have hnew : ∀ op, .invoked c op ∈ log ++ [.invoked c op₀] → op = op₀ := by
        intro op ho
        rcases List.mem_append.mp ho with ho | ho
        · exact absurd hnone (hinv.invoked c op ho)
        · simpa using ho
      rw [hnew op ho, hnew op' ho']
    · have hold : ∀ op, .invoked c op ∈ log ++ os → .invoked c op ∈ log := fun op ho =>
        (List.mem_append.mp ho).resolve_right hm.not_invoked
      exact hinv.unique c op op' (hold op ho) (hold op' ho')
  returned c r := by
    rw [List.mem_append, hinv.returned]
    rcases h.cases_call c with ⟨hsame, hnot⟩ | ⟨op, hnone, hpc', rfl⟩ | ⟨pc, pc', w₁, hpc, hm, rfl⟩
    · rw [hsame, or_iff_left fun ho => hnot _ ho rfl]
    · simp [hnone, hpc', op.start_ne_returned]
    · simp [hpc, hm.not_returned, hm.returned_mem]
  publisher c pc ev hpc hev := by
    rcases h.cases_call c with ⟨hsame, -⟩ | ⟨op, -, hpc', rfl⟩ | ⟨pc₀, pc', w₁, hpc₀, hm, rfl⟩
    · exact (hinv.publisher c pc ev (hsame ▸ hpc) hev).append os
    · rw [hpc'] at hpc
      cases hpc
      cases op with
      | publishWithResult ctx ev' =>
        cases hev
        exact ⟨ctx, by simp⟩
      | _ => cases hev
    · rw [Bus.setPc_calls_self] at hpc
      cases hpc
      exact (hinv.publisher c pc₀ ev hpc₀ (hm.event hev)).append os
  target c pc ev p hpc hev hp := by
    -- a subscription keeps its topic, so that one that was a target stays one of this topic
    have hstay : ∀ sub, w.subs[p]? = some sub → sub.topic = ev.topic →
        ∃ sub', w'.subs[p]? = some sub' ∧ sub'.topic = ev.topic := fun sub hs ht => by
      obtain ⟨sub', hs', hl⟩ := h.later p sub hs
      exact ⟨sub', hs', hl.topic.trans ht⟩
    rcases h.cases_call c with ⟨hsame, -⟩ | ⟨op, -, hpc', -⟩ | ⟨pc₀, pc', w₁, hpc₀, hm, rfl⟩
    · obtain ⟨sub, hs, ht⟩ := hinv.target c pc ev p (hsame ▸ hpc) hev hp
      exact hstay sub hs ht
    · rw [hpc'] at hpc
      cases hpc
      cases op <;> simp [Op.start, Pc.targets] at hp
    · rw [Bus.setPc_calls_self] at hpc
      cases hpc
      rcases hm.targets hp with hold | ⟨ev', hev', hreg'⟩
      · obtain ⟨sub, hs, ht⟩ := hinv.target c pc₀ ev p hpc₀ (hm.event hev) hold
        exact hstay sub hs ht
      · -- `publishEnter` has copied the target from the registry
        rw [hev] at hev'
        cases hev'
        obtain ⟨id, he⟩ := (Broker.mem_registered _ _ _).mp hreg'
        obtain ⟨sub, hs, ht, -⟩ := hreg.own _ id p he
        exact hstay sub hs ht
  cached t x hx := by
    rcases h.cached hx with hold | ⟨ht, hpc, -⟩
    · obtain ⟨ht, hby⟩ := hinv.cached t x hold
      exact ⟨ht, hby.append os⟩
    · exact ⟨ht, (hinv.publisher _ _ _ hpc rfl).append os⟩
  panicked c hc := by
    rcases h.cases_call c with ⟨hsame, -⟩ | ⟨op, -, hpc', -⟩ | ⟨pc, pc', w₁, -, hm, rfl⟩
    · obtain ⟨p, ho⟩ := hinv.panicked c (hsame ▸ hc)
      exact ⟨p, List.mem_append_left _ ho⟩
    · rw [hpc'] at hc
      cases op <;> cases hc
    · rw [Bus.setPc_calls_self] at hc
      obtain ⟨p, ho⟩ := hm.panicked_mem (Option.some.inj hc)
      exact ⟨p, List.mem_append_right _ ho⟩
  put p x route ho := by
    rcases List.mem_append.mp ho with ho | ho
    · obtain ⟨hby, sub, hs, ht⟩ := hinv.put p x route ho
      obtain ⟨sub', hs', hl⟩ := h.later p sub hs
      exact ⟨hby.append os, sub', hs', hl.topic.trans ht⟩
    · -- a replay puts a cached copy, and `enqueue` the event of its call
      rcases h.put_cases ho with ⟨-, topic, events, hx, hs'⟩ | ⟨todo, hpc⟩
      · obtain ⟨ht, hby⟩ := hinv.cached topic x hx
        exact ⟨hby.append os, _, hs', ht.symm⟩
      · obtain ⟨sub, hs, ht⟩ := hinv.target _ _ _ p hpc rfl (by simp [Pc.targets])
        obtain ⟨sub', hs', hl⟩ := h.later p sub hs
        exact ⟨(hinv.publisher _ _ _ hpc rfl).append os, sub', hs', hl.topic.trans ht⟩

end Calls

/-- The account of where calls and events come from holds at the end of every run. -/
theorem log_inv (h : (Bus.lts config).Reach G log w) : LogInv log w := by
  refine h.induct_reach (P := LogInv) ?_ ?_
  · rintro _ rfl
    refine ⟨?_, ?_, ?_, ?_, ?_, ?_, ?_, ?_⟩ <;> simp [new, Broker.cached]
  · exact fun log w a w' os hr hinv _ hstep => log_step (step_effect hstep) (registry_inv hr) hinv

end EventBus
