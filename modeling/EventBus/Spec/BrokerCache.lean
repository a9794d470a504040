import EventBus.ForStd.BoundedQueue
import EventBus.Spec.BrokerClose

/-!
# The topic cache

The broker keeps the events of a topic that has no subscriber, at most `CacheSize` of them,
and `Subscribe` moves the oldest of them, at most `QueueSize`, to the queue of the subscription
it makes. The cache of a topic is compared with a bounded queue to which the same accepted
events and the same successful calls of `Subscribe` happen.

## Key results

- `Effect.cacheStep`: what a step does to the topic caches
- `cache_inv`: the caches are those of the bounded queues
- `subscribe_replays`: `Subscribe` never blocks in its replay loop
- `topic_cache_fifo`: length, order and independence of the caches over whole runs
-/

namespace EventBus

/-- What matters to the topic caches: the events accepted without a subscriber, and the
    calls of `Subscribe` that succeed. -/
inductive CacheOp where
  | accepted (x : Copy)
  | subscribed (topic : Bytes) (s : SubPtr)
deriving DecidableEq

def CacheOp.topic : CacheOp → Bytes
  | .accepted x => x.event.topic
  | .subscribed topic _ => topic

/-- What an observation, made by a step from `w`, means to the topic caches. -/
def Bus.cacheOp (w : Bus) : Obs → Option CacheOp
  | .snapshot c [] =>
    match w.calls c with
    | some (.publish ev) => some (.accepted ⟨c, ev⟩)
    | _ => none
  | .returned c (.subscribed s) =>
    match w.calls c with
    | some (.subscribe topic) => some (.subscribed topic s)
    | _ => none
  | _ => none

def Bus.cacheOps (w : Bus) (a : Action) : List CacheOp :=
  match w.step a with
  | some (_, os) => os.filterMap w.cacheOp
  | none => []

/-- The runs of a broker, with what matters to the topic caches. -/
def Bus.caching (config : Config) : Lts Bus Action (Obs ⊕ CacheOp) :=
  (Bus.lts config).observe Bus.cacheOps

/-! ## The reference -/

/-- An accepted event of topic `t` enters the queue of `t`, and a successful `Subscribe` takes
    a batch of at most `queueSize` events from it. -/
def queueOp (queueSize : Nat) (t : Bytes) : CacheOp → Option (BoundedQueue.Op Copy)
  | .accepted x => if x.event.topic = t then some (.append x) else none
  | .subscribed topic _ => if topic = t then some (.take queueSize) else none

/-- The queue that the cache of topic `t` is compared with. -/
def referenceCache (config : Config) (t : Bytes) (ops : List CacheOp) :
    BoundedQueue Copy config.normalise.cacheSize :=
  .run (ops.filterMap (queueOp config.normalise.queueSize t))

/-- The events accepted for topic `t` without a subscriber, in the order of acceptance. -/
def acceptedOn (t : Bytes) (ops : List CacheOp) : List Copy :=
  ops.filterMap fun
    | .accepted x => if x.event.topic = t then some x else none
    | .subscribed _ _ => none

/-- The subscriptions made for topic `t`, in the order of their creation. -/
def subscribersOf (t : Bytes) (ops : List CacheOp) : List SubPtr :=
  ops.filterMap fun
    | .accepted _ => none
    | .subscribed topic s => if topic = t then some s else none

section Reference

variable {config : Config} {t : Bytes} {ops : List CacheOp} {x : Copy} {s : SubPtr}

/-- The events that enter the queue of the topic are those accepted on it. -/
theorem appended_queueOp (n : Nat) (t : Bytes) (ops : List CacheOp) :
    BoundedQueue.appended (ops.filterMap (queueOp n t)) = acceptedOn t ops := by
  rw [BoundedQueue.appended, List.filterMap_filterMap, acceptedOn]
  refine List.filterMap_congr fun op _ => ?_
  cases op with
  | accepted x =>
    by_cases h : x.event.topic = t
    · simp [queueOp, h]
    · simp [queueOp, h]
  | subscribed topic s =>
    by_cases h : topic = t
    · simp [queueOp, h]
    · simp [queueOp, h]

theorem acceptedOn_append (ops ops' : List CacheOp) :
    acceptedOn t (ops ++ ops') = acceptedOn t ops ++ acceptedOn t ops' := List.filterMap_append

theorem subscribersOf_append (ops ops' : List CacheOp) :
    subscribersOf t (ops ++ ops') = subscribersOf t ops ++ subscribersOf t ops' :=
  List.filterMap_append

theorem acceptedOn_accepted (t : Bytes) (x : Copy) :
    acceptedOn t [.accepted x] = if x.event.topic = t then [x] else [] := by
  by_cases h : x.event.topic = t
  · simp [acceptedOn, h]
  · simp [acceptedOn, h]

theorem subscribersOf_subscribed (t topic : Bytes) (s : SubPtr) :
    subscribersOf t [.subscribed topic s] = if topic = t then [s] else [] := by
  by_cases h : topic = t
  · simp [subscribersOf, h]
  · simp [subscribersOf, h]

theorem mem_acceptedOn : x ∈ acceptedOn t ops ↔ .accepted x ∈ ops ∧ x.event.topic = t := by
  simp only [acceptedOn, List.mem_filterMap]
  constructor
  · rintro ⟨op, hop, hx⟩
    cases op with
    | accepted y =>
      obtain ⟨ht, heq⟩ := Option.ite_none_right_eq_some.mp hx
      cases heq
      exact ⟨hop, ht⟩
    | subscribed => cases hx
  · rintro ⟨hop, ht⟩
    exact ⟨_, hop, if_pos ht⟩

theorem mem_subscribersOf : s ∈ subscribersOf t ops ↔ .subscribed t s ∈ ops := by
  simp only [subscribersOf, List.mem_filterMap]
  constructor
  · rintro ⟨op, hop, hs⟩
    cases op with
    | accepted => cases hs
    | subscribed topic s' =>
      obtain ⟨rfl, heq⟩ := Option.ite_none_right_eq_some.mp hs
      cases heq
      exact hop
  · exact fun hop => ⟨_, hop, if_pos rfl⟩

/-- Operations on other topics leave the queue of `t` alone. -/
theorem referenceCache_of_ne (op : CacheOp) (h : op.topic ≠ t) :
    referenceCache config t (ops ++ [op]) = referenceCache config t ops := by
  have hnone : queueOp config.normalise.queueSize t op = none := by
    cases op with
    | accepted x => exact if_neg h
    | subscribed topic s => exact if_neg h
  rw [referenceCache, List.filterMap_append, List.filterMap_cons_none hnone, List.filterMap_nil,
    List.append_nil, referenceCache]

/-- An accepted event enters the reference. -/
theorem referenceCache_accepted (h : x.event.topic = t) :
    referenceCache config t (ops ++ [.accepted x]) = (referenceCache config t ops).append x := by
  have hsome : queueOp config.normalise.queueSize t (.accepted x) = some (.append x) := if_pos h
  rw [referenceCache, List.filterMap_append, List.filterMap_cons_some hsome, List.filterMap_nil,
    BoundedQueue.run_append]
  rfl

/-- A subscriber takes from the reference what its queue holds. -/
theorem referenceCache_subscribed :
    referenceCache config t (ops ++ [.subscribed t s]) =
      (referenceCache config t ops).take config.normalise.queueSize := by
  have hsome : queueOp config.normalise.queueSize t (.subscribed t s) =
      some (.take config.normalise.queueSize) := if_pos rfl
  rw [referenceCache, List.filterMap_append, List.filterMap_cons_some hsome, List.filterMap_nil,
    BoundedQueue.run_append]
  rfl

end Reference

/-- `cacheEvent` does to the cache of the topic what a bounded queue does. -/
theorem Broker.cacheEvent_append {b : Broker} {x : Copy} {n : Nat} {q : BoundedQueue Copy n}
    (hn : b.config.cacheSize = n) (hq : b.cached x.event.topic = q.held) :
    (b.cacheEvent x).cached x.event.topic = (q.append x).held := by
  rw [cached_cacheEvent, hn]
  have hfits := q.fits
  rcases Nat.lt_or_ge q.held.length n with hlt | hge
  · rw [if_pos ⟨by omega, rfl⟩, kept, hn, hq, if_neg (by omega), (q.append_of_lt hlt x).1]
  · obtain ⟨y, ys, heq, hheld, -⟩ := q.append_of_ge hge x
    rw [hheld]
    by_cases hzero : n = 0
    · -- without a cache the event is pushed out at once
      have hnil : q.held = [] := List.length_eq_zero_iff.mp (by omega)
      rw [if_neg (by simp [hzero]), hq, hnil]
      rw [hnil] at heq
      exact (List.cons.inj heq).2
    · rw [if_pos ⟨hzero, rfl⟩, kept, hn, hq, if_pos hge]
      rw [← List.tail_append_of_ne_nil (List.length_pos_iff.mp (by omega)), heq, List.tail_cons]

/-! ## Steps -/

section Steps

variable {w w' w₁ : Bus} {c : CallId} {a : Action} {pc pc' : Pc} {os : List Obs}

/-- A call that returns reports nothing about the caches, unless it is `Subscribe`. -/
theorem cacheOp_report (h : ∀ s, pc ≠ .returned (.subscribed s)) :
    (pc.report c).filterMap w.cacheOp = [] := by
  rw [List.filterMap_eq_nil_iff]
  intro o ho
  obtain ⟨r, rfl, rfl⟩ := Pc.mem_report.mp ho
  cases r with
  | subscribed s => exact absurd rfl (h s)
  | _ => rfl

theorem Pc.closeNext_ne_subscribed (rest : List SubPtr) (s : SubPtr) :
    Pc.closeNext rest ≠ .returned (.subscribed s) := by
  cases rest <;> exact nofun

theorem Quiet.ne_subscribed (h : Quiet w c a pc pc') (s : SubPtr) :
    pc' ≠ .returned (.subscribed s) := by
  cases h with
  | closeOnceAfter => exact Pc.closeNext_ne_subscribed _ s
  | @closeWait _ drain => cases drain <;> exact nofun
  | _ => exact nofun

/-- What a step does to the topic caches: nothing, or an event is accepted, or a call of
    `Subscribe` succeeds. -/
theorem Effect.cacheStep (h : Effect w a w' os) :
    (os.filterMap w.cacheOp = [] ∧ (∀ t, w'.broker.cached t = w.broker.cached t) ∧
      ∀ p, givenVia .replay os p = []) ∨
    (∃ c ev, os.filterMap w.cacheOp = [.accepted ⟨c, ev⟩] ∧ w.calls c = some (.publish ev) ∧
      w'.calls c = some (.returned .published) ∧
      (∀ t, w'.broker.cached t = (w.broker.cacheEvent ⟨c, ev⟩).cached t) ∧
      ∀ p, givenVia .replay os p = []) ∨
    ∃ topic, os.filterMap w.cacheOp = [.subscribed topic w.subs.length] ∧
      (∀ t, w'.broker.cached t = (w.subscribeBroker topic).cached t) ∧
      w'.subs.length = w.subs.length + 1 ∧
      ∀ p, givenVia .replay os p = if p = w.subs.length then w.replayed topic else [] := by
  cases h with
  | @call c _ pc pc' w₁ _ hpc hm =>
    cases hm with
    | quiet hq =>
      exact .inl ⟨cacheOp_report hq.ne_subscribed, fun _ => rfl, fun p => givenVia_eq_nil (by simp)⟩
    | @publishCached oldest ev b _ _ _ _ hrem =>
      refine .inr (.inl ⟨c, ev, ?_, hpc, by simp, fun t => ?_, fun p => givenVia_eq_nil (by simp)⟩)
      · have hrest : (Bus.cacheObs w.broker ⟨c, ev⟩ ++ [Obs.returned c .published]).filterMap
            w.cacheOp = [] := by
          rw [List.filterMap_eq_nil_iff]
          intro o ho
          simp only [List.mem_append, Bus.mem_cacheObs, List.mem_singleton] at ho
          rcases ho with ⟨-, rfl | ⟨-, y, -, rfl⟩⟩ | rfl <;> rfl
        have hfirst : w.cacheOp (.snapshot c []) = some (.accepted ⟨c, ev⟩) := by
          simp [Bus.cacheOp, hpc]
        rw [List.filterMap_cons_some hfirst, hrest]
      · exact Broker.cached_congr (Broker.remember_frame hrem).2.1 t
    | @publishSnapshot order _ _ _ _ _ _ hne =>
      refine .inl ⟨?_, fun _ => rfl, fun p => givenVia_eq_nil (by simp)⟩
      cases order with
      | nil => exact absurd rfl hne
      | cons => rfl
    | publishLeave hrem =>
      exact .inl ⟨rfl, fun t => Broker.cached_congr (Broker.remember_frame hrem).2.1 t,
        fun p => givenVia_eq_nil (by simp)⟩
    | @subscribe topic events =>
      refine .inr (.inr ⟨topic, ?_, fun _ => rfl, by simp, fun p => ?_⟩)
      · -- the replay reports puts, which are no operations of the cache
        have hputs : ((w.replayed topic).map (Obs.put w.subs.length · .replay)).filterMap
            w.cacheOp = [] := by
          rw [List.filterMap_map, List.filterMap_eq_nil_iff]
          exact fun _ _ => rfl
        rw [List.filterMap_append, hputs]
        simp [Bus.cacheOp, hpc]
      · by_cases hp : p = w.subs.length
        · subst hp
          simp [givenVia, List.filterMap_map]
        · simp [givenVia, List.filterMap_map, hp, Ne.symm hp]
    | @closeDeregister s sub =>
      exact .inl ⟨rfl, fun t => Broker.cached_congr (Broker.deregister_cache _ _ _) t,
        fun p => givenVia_eq_nil (by simp)⟩
    | closeBroker =>
      exact .inl ⟨cacheOp_report (Pc.closeNext_ne_subscribed _), fun _ => rfl,
        fun p => givenVia_eq_nil (by simp)⟩
    | closeEvents =>
      exact .inl ⟨cacheOp_report (Pc.closeNext_ne_subscribed _), fun _ => rfl,
        fun p => givenVia_eq_nil (by simp)⟩
    | enqueueSend =>
      exact .inl ⟨rfl, fun _ => rfl, fun p => givenVia_eq_nil (by simp)⟩
    | _ => exact .inl ⟨rfl, fun _ => rfl, fun p => rfl⟩
  | _ => exact .inl ⟨rfl, fun _ => rfl, fun p => rfl⟩

end Steps

/-! ## Runs -/

/-- The topic caches are those of the reference, and the batches that the reference gives away
    are what `Subscribe` replays. -/
structure CacheInv (config : Config) (ops : List CacheOp) (log : List Obs) (w : Bus) : Prop where
  held : ∀ t, w.broker.cached t = (referenceCache config t ops).held
  batches : ∀ t, (referenceCache config t ops).batches =
    (subscribersOf t ops).map (givenVia .replay log)
  created : ∀ topic s, .subscribed topic s ∈ ops → s < w.subs.length
  /-- An event is accepted when its call returns. -/
  returned : ∀ x, .accepted x ∈ ops → w.calls x.call = some (.returned .published)
  nodup : ∀ t, (acceptedOn t ops).Nodup

section Runs

variable {config : Config} {ops : List CacheOp} {log os : List Obs} {w w' : Bus} {a : Action}
  {x : Copy} {topic : Bytes}

/-- A call that has returned `Published` stays so. -/
private theorem published_stays (h : Effect w a w' os) {c : CallId}
    (hc : w.calls c = some (.returned .published)) : w'.calls c = some (.returned .published) := by
  rcases h.cases_call c with ⟨hsame, -⟩ | ⟨op, hnone, -, -⟩ | ⟨pc, pc', w₁, hpc, hm, -⟩
  · rw [hsame, hc]
  · rw [hnone] at hc
    cases hc
  · rw [hpc] at hc
    exact absurd (Option.some.inj hc) hm.not_returned

/-- A step that replays to a new subscription only leaves the earlier replays as they were. -/
private theorem replays_stay (hcreated : ∀ topic s, .subscribed topic s ∈ ops → s < w.subs.length)
    (hnew : ∀ p, p < w.subs.length → givenVia .replay os p = []) (t : Bytes) :
    (subscribersOf t ops).map (givenVia .replay (log ++ os)) =
      (subscribersOf t ops).map (givenVia .replay log) := by
  refine List.map_congr_left fun s hs => ?_
  rw [givenVia_append, hnew s (hcreated t s (mem_subscribersOf.mp hs)), List.append_nil]

/-- A step that does not concern the caches. -/
private theorem CacheInv.stay (hinv : CacheInv config ops log w) (h : Effect w a w' os)
    (hcached : ∀ t, w'.broker.cached t = w.broker.cached t)
    (hreplay : ∀ p, givenVia .replay os p = []) : CacheInv config ops (log ++ os) w' where
  held t := (hcached t).trans (hinv.held t)
  batches t := by
    rw [replays_stay hinv.created fun p _ => hreplay p]
    exact hinv.batches t
  created topic s hop := h.alloc (hinv.created topic s hop)
  returned x hop := published_stays h (hinv.returned x hop)
  nodup := hinv.nodup

/-- An event is accepted. -/
private theorem CacheInv.accept (hinv : CacheInv config ops log w) (h : Effect w a w' os)
    (hconfig : w.broker.config = config.normalise) (hpc : w.calls x.call = some (.publish x.event))
    (hpc' : w'.calls x.call = some (.returned .published))
    (hcached : ∀ t, w'.broker.cached t = (w.broker.cacheEvent x).cached t)
    (hreplay : ∀ p, givenVia .replay os p = []) :
    CacheInv config (ops ++ [.accepted x]) (log ++ os) w' where
  held t := by
    rw [hcached]
    by_cases ht : x.event.topic = t
    · subst ht
      rw [referenceCache_accepted rfl]
      exact Broker.cacheEvent_append (by rw [hconfig]) (hinv.held _)
    · rw [referenceCache_of_ne (.accepted x) ht, Broker.cached_cacheEvent,
        if_neg fun hand => ht hand.2.symm]
      exact hinv.held t
  batches t := by
    rw [subscribersOf_append, show subscribersOf t [.accepted x] = [] from rfl, List.append_nil,
      replays_stay hinv.created fun p _ => hreplay p, ← hinv.batches t]
    by_cases ht : x.event.topic = t
    · rw [referenceCache_accepted ht]
      rcases Nat.lt_or_ge (referenceCache config t ops).held.length config.normalise.cacheSize
        with hlt | hge
      · exact (BoundedQueue.append_of_lt hlt x).2.2
      · obtain ⟨_, _, -, -, -, hbatches⟩ := BoundedQueue.append_of_ge hge x
        exact hbatches
    · rw [referenceCache_of_ne (.accepted x) ht]
  created topic s hop := by
    rcases List.mem_append.mp hop with hold | hnew
    · exact h.alloc (hinv.created topic s hold)
    · cases List.mem_singleton.mp hnew
  returned y hop := by
    rcases List.mem_append.mp hop with hold | hnew
    · exact published_stays h (hinv.returned y hold)
    · obtain rfl := CacheOp.accepted.inj (List.mem_singleton.mp hnew)
      exact hpc'
  nodup t := by
    -- the call was publishing, so it had not returned before
    have hnew : x ∉ acceptedOn t ops := fun hmem => by
      have hret := hinv.returned x (mem_acceptedOn.mp hmem).1
      rw [hpc] at hret
      cases hret
    rw [acceptedOn_append, acceptedOn_accepted]
    split
    · exact (hinv.nodup t).append (List.nodup_singleton _) (by simpa using hnew)
    · rw [List.append_nil]
      exact hinv.nodup t

/-- A call of `Subscribe` succeeds. -/
private theorem CacheInv.subscribe (hinv : CacheInv config ops log w) (h : Effect w a w' os)
    (hconfig : w.broker.config = config.normalise)
    (hfresh : ∀ x r, .put w.subs.length x r ∉ log)
    (hcached : ∀ t, w'.broker.cached t = (w.subscribeBroker topic).cached t)
    (hlen : w'.subs.length = w.subs.length + 1)
    (hreplay : ∀ p, givenVia .replay os p = if p = w.subs.length then w.replayed topic else []) :
    CacheInv config (ops ++ [.subscribed topic w.subs.length]) (log ++ os) w' where
  held t := by
    rw [hcached]
    by_cases ht : topic = t
    · subst ht
      rw [referenceCache_subscribed, w.subscribeBroker_cached, hinv.held, hconfig]
      rfl
    · rw [referenceCache_of_ne (.subscribed topic _) ht, w.subscribeBroker_cached_ne (Ne.symm ht)]
      exact hinv.held t
  batches t := by
    have hold : (subscribersOf t ops).map (givenVia .replay (log ++ os)) =
        (subscribersOf t ops).map (givenVia .replay log) :=
      replays_stay hinv.created (fun p hp => (hreplay p).trans (if_neg hp.ne)) t
    rw [subscribersOf_append, List.map_append, hold, ← hinv.batches t, subscribersOf_subscribed]
    by_cases ht : topic = t
    · subst ht
      -- nothing had been replayed to the subscription before it was made
      have hbatch : givenVia .replay (log ++ os) w.subs.length = w.replayed topic := by
        rw [givenVia_append, givenVia_eq_nil fun x => hfresh x .replay, hreplay, if_pos rfl,
          List.nil_append]
      rw [referenceCache_subscribed, if_pos rfl, List.map_singleton, hbatch, Bus.replayed,
        hinv.held, hconfig]
      rfl
    · rw [referenceCache_of_ne (.subscribed topic _) ht, if_neg ht, List.map_nil, List.append_nil]
  created topic' s hop := by
    rcases List.mem_append.mp hop with hold | hnew
    · exact h.alloc (hinv.created topic' s hold)
    · obtain ⟨-, rfl⟩ := CacheOp.subscribed.inj (List.mem_singleton.mp hnew)
      omega
  returned x hop := by
    rcases List.mem_append.mp hop with hold | hnew
    · exact published_stays h (hinv.returned x hold)
    · cases List.mem_singleton.mp hnew
  nodup t := by
    rw [acceptedOn_append, show acceptedOn t [.subscribed topic w.subs.length] = [] from rfl,
      List.append_nil]
    exact hinv.nodup t

/-- The caches and the replays of every run are those of the reference. -/
theorem cache_inv {G : Bus → Action → Prop} {log : List (Obs ⊕ CacheOp)}
    (h : (Bus.caching config).Reach G log w) :
    CacheInv config (Lts.extra log) (Lts.inner log) w := by
  refine h.induct_reach (P := fun log w => CacheInv config (Lts.extra log) (Lts.inner log) w) ?_ ?_
  · rintro _ rfl
    refine ⟨?_, ?_, ?_, ?_, ?_⟩ <;> simp [new, Broker.cached, referenceCache, subscribersOf,
      acceptedOn, BoundedQueue.empty]
  · intro log w a w' os hr hinv _ hstep
    obtain ⟨hstep, hextra⟩ := Lts.observe_step hstep
    have hops : Lts.extra os = (Lts.inner os).filterMap w.cacheOp := by
      rw [hextra, Bus.cacheOps]
      have : w.step a = some (w', Lts.inner os) := hstep
      rw [this]
    have heff : Effect w a w' (Lts.inner os) := step_effect hstep
    have hconfig := config_inv hr.of_observe
    rw [Lts.extra_append, Lts.inner_append, hops]
    rcases heff.cacheStep with ⟨hnone, hcached, hreplay⟩ |
      ⟨c, ev, hone, hpc, hpc', hcached, hreplay⟩ | ⟨topic, hone, hcached, hlen, hreplay⟩
    · rw [hnone, List.append_nil]
      exact hinv.stay heff hcached hreplay
    · rw [hone]
      exact hinv.accept heff hconfig hpc hpc' hcached hreplay
    · have hfresh : ∀ x r, .put w.subs.length x r ∉ Lts.inner log := by
        intro x r ho
        obtain ⟨-, sub, hs, -⟩ := (log_inv hr.of_observe).put _ x r ho
        simp at hs
      rw [hone]
      exact hinv.subscribe heff hconfig hfresh hcached hlen hreplay

end Runs

/-- `Subscribe` does not block in its replay loop: the queue it has just made has room for all
    that it replays. -/
theorem subscribe_replays {w : Bus} {c : CallId} {t : Bytes}
    (hpc : w.calls c = some (.subscribe t)) (hclosed : w.broker.closed = false)
    (hdraining : w.broker.draining = false) :
    ∃ w' os, w.step (.subscribe c) = some (w', os) ∧
      w'.calls c = some (.returned (.subscribed w.subs.length)) ∧
      w'.queue w.subs.length = w.replayed t ∧
      w'.broker.cached t = (w.subscribeBroker t).cached t := by
  have hroom : (w.replayed t).length ≤ w.broker.config.queueSize := by
    rw [Bus.replayed, List.length_take]
    omega
  obtain ⟨events, hsend, hbuf, -, -⟩ := Chan.exists_sendAll_done
    (newSubscription t (w.broker.sequence + 1) w.broker.config.queueSize).events (w.replayed t) rfl
    (by simpa [newSubscription] using hroom)
  have hbuf' : events.buf = w.replayed t := hbuf
  have hstep : w.step (.subscribe c) = some
      (({ w with
          broker := w.subscribeBroker t
          subs := w.subs ++ [w.subscribeNew t events] } : Bus).setPc c
            (.returned (.subscribed w.subs.length)),
        (w.replayed t).map (.put w.subs.length · .replay) ++
          [.returned c (.subscribed w.subs.length)]) := by
    rw [Bus.replayed] at hsend
    simp only [Bus.step, Bus.subscribe, hpc, hclosed, hdraining, Bool.false_eq_true, or_self,
      if_false]
    rw [show (newSubscription t (w.broker.sequence + 1) w.broker.config.queueSize).events.cap =
      w.broker.config.queueSize from rfl, hsend]
    rfl
  refine ⟨_, _, hstep, by simp, ?_, rfl⟩
  simp [Bus.queue, Bus.subscribeNew, hbuf']

/-- The topic cache is a bounded first-in first-out queue. In every run and for every topic:
    the cache is that of the reference queue, so it never holds more than `CacheSize` events;
    `Subscribe` does not block, and starts its queue with the oldest `min(length, QueueSize)`
    cached events, which leave the cache; the batches of the reference are what was replayed to
    the subscriptions of the topic, before anything else entered their queues; a step that
    accepts no event and makes no subscription for the topic leaves its cache alone; and the
    batches followed by the cache are the accepted events that were not evicted, in the order
    of acceptance and each of them once. -/
theorem topic_cache_fifo {config : Config} {log : List (Obs ⊕ CacheOp)} {w : Bus}
    (h : (Bus.caching config).Reach Lts.Always log w) (t : Bytes) :
    w.broker.cached t = (referenceCache config t (Lts.extra log)).held ∧
    (w.broker.cached t).length ≤ config.normalise.cacheSize ∧
    (∀ c, w.calls c = some (.subscribe t) → w.broker.closed = false → w.broker.draining = false →
      ∃ w' os, w.step (.subscribe c) = some (w', os) ∧
        w'.calls c = some (.returned (.subscribed w.subs.length)) ∧
        w'.queue w.subs.length = (w.broker.cached t).take
          (min (w.broker.cached t).length config.normalise.queueSize) ∧
        w'.broker.cached t = (w.broker.cached t).drop
          (min (w.broker.cached t).length config.normalise.queueSize)) ∧
    (referenceCache config t (Lts.extra log)).batches =
      (subscribersOf t (Lts.extra log)).map (givenVia .replay (Lts.inner log)) ∧
    (∀ s, givenVia .replay (Lts.inner log) s <+: given (Lts.inner log) s) ∧
    (∀ a w' os, w.step a = some (w', os) → (∀ op ∈ w.cacheOps a, op.topic ≠ t) →
      w'.broker.cached t = w.broker.cached t) ∧
    (acceptedOn t (Lts.extra log)).Nodup ∧
    (referenceCache config t (Lts.extra log)).batches.flatten ++ w.broker.cached t =
      (acceptedOn t (Lts.extra log)).filter
        (· ∉ (referenceCache config t (Lts.extra log)).pushedOut) := by
  have hinv := cache_inv h
  have hconfig := config_inv h.of_observe
  refine ⟨hinv.held t, ?_, fun c hpc hclosed hdraining => ?_, hinv.batches t, fun s => ?_,
    fun a w' os hstep hother => ?_, hinv.nodup t, ?_⟩
  · rw [hinv.held t]
    exact (referenceCache config t (Lts.extra log)).fits
  · obtain ⟨w', os, hstep, hret, hqueue, hcached⟩ := subscribe_replays hpc hclosed hdraining
    rw [Bus.replayed, hconfig] at hqueue
    rw [w.subscribeBroker_cached, hconfig] at hcached
    exact ⟨w', os, hstep, hret, hqueue, hcached⟩
  · rw [given_split h.of_observe s]
    exact List.prefix_append _ _
  · simp only [Bus.cacheOps, hstep] at hother
    rcases (step_effect hstep).cacheStep with ⟨-, hcached, -⟩ | ⟨c, ev, hone, -, -, hcached, -⟩ |
      ⟨topic, hone, hcached, -⟩
    · exact hcached t
    · have hne : ev.topic ≠ t := hother (.accepted ⟨c, ev⟩)
        (by rw [hone]; exact List.mem_singleton_self _)
      rw [hcached, Broker.cached_cacheEvent, if_neg fun hand => hne hand.2.symm]
    · have hne : topic ≠ t := hother (.subscribed topic _)
        (by rw [hone]; exact List.mem_singleton_self _)
      rw [hcached, w.subscribeBroker_cached_ne hne.symm]
  · have hnodup := hinv.nodup t
    rw [← appended_queueOp config.normalise.queueSize] at hnodup ⊢
    rw [hinv.held t]
    exact BoundedQueue.taken_append_held _ hnodup

/-- Three events are accepted for a topic whose cache holds two, so that the first is evicted.
    The subscription has room for one of the others, and the last one stays in the cache. -/
theorem topic_cache_fifo_evicted :
    ∃ log w, (Bus.caching ⟨1, 2, 0, .block⟩).Reach Lts.Always log w ∧
      (referenceCache ⟨1, 2, 0, .block⟩ [7] (Lts.extra log)).pushedOut =
        [⟨0, ⟨[1], [], [7], [], []⟩⟩] ∧
      w.broker.cached [7] = [⟨2, ⟨[3], [], [7], [], []⟩⟩] ∧
      (referenceCache ⟨1, 2, 0, .block⟩ [7] (Lts.extra log)).batches =
        (subscribersOf [7] (Lts.extra log)).map (givenVia .replay (Lts.inner log)) ∧
      givenVia .replay (Lts.inner log) 0 = [⟨1, ⟨[2], [], [7], [], []⟩⟩] := by
  obtain ⟨log, w, hr, hout, hcached, hreplay⟩ :=
    Lts.reach_of_runWhere (M := Bus.caching ⟨1, 2, 0, .block⟩) (G := Lts.Always) rfl
      [.invoke 0 (.publishWithResult .background ⟨[1], [], [7], [], []⟩), .publishEnter 0 [] [],
        .invoke 1 (.publishWithResult .background ⟨[2], [], [7], [], []⟩), .publishEnter 1 [] [],
        .invoke 2 (.publishWithResult .background ⟨[3], [], [7], [], []⟩), .publishEnter 2 [] [],
        .invoke 3 (.subscribe [7]), .subscribe 3]
      (Q := fun r => (referenceCache ⟨1, 2, 0, .block⟩ [7] (Lts.extra r.2)).pushedOut =
          [⟨0, ⟨[1], [], [7], [], []⟩⟩] ∧
        r.1.broker.cached [7] = [⟨2, ⟨[3], [], [7], [], []⟩⟩] ∧
        givenVia .replay (Lts.inner r.2) 0 = [⟨1, ⟨[2], [], [7], [], []⟩⟩])
      (by decide)
  obtain ⟨-, -, -, hbatches, -⟩ := topic_cache_fifo hr [7]
  exact ⟨log, w, hr, hout, hcached, hbatches, hreplay⟩

end EventBus
