import EventBus.Spec.BrokerLog

/-!
# Fan-out accounting

What a call of `PublishWithResult` does with its event is read off the log: the
snapshot it took, the queues it sent to, whether it put the event in the topic cache,
and the queues the event was replayed to from there. `Pc.Account` follows these
histories through the program counters of the call. A call that returns `Published`
has either cached its event or sent it once to every subscription of its snapshot.

## Key results

- `account_inv`: the account of every call holds at the end of every run
- `replays_le`: an event is replayed at most as often as it was cached
- `fan_out_accounting`: the two ways to publish, and exactly one copy for each
  subscription that is registered throughout
-/

namespace EventBus

variable {log log₀ log₁ : List Obs} {c : CallId} {p : SubPtr} {G : Bus → Action → Prop}
  {w w₁ : Bus} {x : Copy} {order : List SubPtr}

/-! ## What a call has done -/

/-- The snapshots of the topic's subscribers that call `c` took. -/
def snapshots (log : List Obs) (c : CallId) : List (List SubPtr) :=
  log.filterMap fun
    | .snapshot d subscribers => if d = c then some subscribers else none
    | _ => none

/-- The subscriptions in whose queue call `c` put its event by `enqueue`. -/
def directs (log : List Obs) (c : CallId) : List SubPtr :=
  log.filterMap fun
    | .put s x .direct => if x.call = c then some s else none
    | _ => none

/-- What call `c` appended to the topic cache. -/
def cachings (log : List Obs) (c : CallId) : List Copy :=
  log.filterMap fun
    | .cached x => if x.call = c then some x else none
    | _ => none

/-- The subscriptions to which the event of call `c` was replayed from the topic cache. -/
def replays (log : List Obs) (c : CallId) : List SubPtr :=
  log.filterMap fun
    | .put s x .replay => if x.call = c then some s else none
    | _ => none

/-- What the consumer of `p` received. -/
def receivedFrom (log : List Obs) (p : SubPtr) : List Copy :=
  log.filterMap fun
    | .received s x => if s = p then some x else none
    | _ => none

/-- What was received was taken, in the same order. -/
theorem receivedFrom_sublist (log : List Obs) (p : SubPtr) :
    (receivedFrom log p).Sublist (taken log p) := by
  induction log with
  | nil => exact .refl _
  | cons o log ih =>
    simp only [receivedFrom, taken, List.filterMap_cons] at ih ⊢
    cases o with
    | received s x => by_cases hs : s = p <;> simp [hs, ih]
    | discarded s x => by_cases hs : s = p <;> simp [hs, ih, List.Sublist.cons]
    | _ => exact ih

theorem mem_directs :
    p ∈ directs log c ↔ ∃ x, x.call = c ∧ .put p x .direct ∈ log := by
  simp only [directs, List.mem_filterMap]
  constructor
  · rintro ⟨o, ho, hp⟩
    split at hp
    · simp only [Option.ite_none_right_eq_some, Option.some.injEq] at hp
      obtain ⟨hx, rfl⟩ := hp
      exact ⟨_, hx, ho⟩
    · cases hp
  · rintro ⟨x, hx, ho⟩
    exact ⟨_, ho, by simp [hx]⟩

/-- Call `c` has neither taken a snapshot nor moved its event anywhere. -/
def Untouched (log : List Obs) (c : CallId) : Prop :=
  snapshots log c = [] ∧ directs log c = [] ∧ cachings log c = []

/-- Call `c` has sent its event to `sent` and still has to send it to `todo`. -/
def InFanOut (log : List Obs) (c : CallId) (sent todo : List SubPtr) : Prop :=
  snapshots log c = [sent ++ todo] ∧ sent ++ todo ≠ [] ∧ directs log c = sent ∧
    cachings log c = []

/-- Call `c` found no subscriber and cached its event if there is a cache. -/
def InCache (log : List Obs) (c : CallId) (cacheSize : Nat) : Prop :=
  snapshots log c = [[]] ∧ directs log c = [] ∧
    ∃ ev, PublishedBy log c ev ∧ cachings log c = if cacheSize = 0 then [] else [⟨c, ev⟩]

/-- What call `c` has done when it stands at a program counter. -/
def Pc.Account (log : List Obs) (c : CallId) (cacheSize : Nat) : Pc → Prop
  | .fanOut _ todo => ∃ sent, InFanOut log c sent todo
  | .enqueueEntered _ s todo | .enqueueSelect _ s todo => ∃ sent, InFanOut log c sent (s :: todo)
  | .enqueueExit _ s todo none => ∃ sent, InFanOut log c (sent ++ [s]) todo
  | .enqueueExit _ s todo (some _) => ∃ sent, InFanOut log c sent (s :: todo)
  | .returned .published => InCache log c cacheSize ∨ ∃ sent, InFanOut log c sent []
  | .returned (.failed _) | .panicked =>
    Untouched log c ∨ ∃ sent todo, InFanOut log c sent todo
  | _ => Untouched log c

/-- The account of call `c`; one that has not been invoked has done nothing. -/
def Accounted (log : List Obs) (w : Bus) (c : CallId) : Prop :=
  match w.calls c with
  | none => Untouched log c
  | some pc => pc.Account log c w.broker.config.cacheSize

section Account

variable {os : List Obs} {w' : Bus} {a : Action} {pc pc' : Pc} {sent todo : List SubPtr} {n : Nat}

@[simp] theorem snapshots_append (log os : List Obs) :
    snapshots (log ++ os) c = snapshots log c ++ snapshots os c := List.filterMap_append

@[simp] theorem directs_append (log os : List Obs) :
    directs (log ++ os) c = directs log c ++ directs os c := List.filterMap_append

@[simp] theorem cachings_append (log os : List Obs) :
    cachings (log ++ os) c = cachings log c ++ cachings os c := List.filterMap_append

@[simp] theorem replays_append (log os : List Obs) :
    replays (log ++ os) c = replays log c ++ replays os c := List.filterMap_append

/-- A step that reports no snapshot, send or caching of `c` leaves its account alone. -/
theorem untouched_of (h : ∀ o ∈ os, o.actor = some c →
    (∃ op, o = .invoked c op) ∨ ∃ r, o = .returned c r) : Untouched os c := by
  refine ⟨?_, ?_, ?_⟩ <;>
  · refine List.filterMap_eq_nil_iff.mpr fun o ho => ?_
    split
    · split
      · subst_vars
        obtain ⟨op, h⟩ | ⟨r, h⟩ := h _ ho rfl <;> exact nomatch h
      · rfl
    · rfl

private theorem untouched_singleton {o : Obs} (h : o.actor = none) : Untouched [o] c :=
  untouched_of fun o' ho hact => by
    rw [List.mem_singleton.mp ho, h] at hact
    cases hact

theorem Untouched.append (h : Untouched log c) (hos : Untouched os c) :
    Untouched (log ++ os) c := by
  simp [Untouched, h.1, h.2.1, h.2.2, hos.1, hos.2.1, hos.2.2]

theorem InFanOut.append (h : InFanOut log c sent todo) (hos : Untouched os c) :
    InFanOut (log ++ os) c sent todo := by
  obtain ⟨hsnap, hne, hdir, hcach⟩ := h
  exact ⟨by simp [hsnap, hos.1], hne, by simp [hdir, hos.2.1], by simp [hcach, hos.2.2]⟩

theorem InCache.append (h : InCache log c n) (hos : Untouched os c) :
    InCache (log ++ os) c n := by
  obtain ⟨hsnap, hdir, ev, hby, hcach⟩ := h
  exact ⟨by simp [hsnap, hos.1], by simp [hdir, hos.2.1], ev, hby.append os,
    by simp [hcach, hos.2.2]⟩

/-- Other steps leave the account of a call alone. -/
theorem Pc.Account.append (h : pc.Account log c n) (hos : Untouched os c) :
    pc.Account (log ++ os) c n := by
  cases pc with
  | fanOut | enqueueEntered | enqueueSelect =>
    obtain ⟨sent, hf⟩ := h
    exact ⟨sent, hf.append hos⟩
  | enqueueExit _ _ _ err =>
    cases err <;>
    · obtain ⟨sent, hf⟩ := h
      exact ⟨sent, hf.append hos⟩
  | returned r =>
    cases r with
    | published =>
      rcases h with hc | ⟨sent, hf⟩
      · exact .inl (hc.append hos)
      · exact .inr ⟨sent, hf.append hos⟩
    | failed =>
      rcases h with hu | ⟨sent, todo, hf⟩
      · exact .inl (hu.append hos)
      · exact .inr ⟨sent, todo, hf.append hos⟩
    | _ => exact Untouched.append h hos
  | panicked =>
    rcases h with hu | ⟨sent, todo, hf⟩
    · exact .inl (hu.append hos)
    · exact .inr ⟨sent, todo, hf.append hos⟩
  | _ => exact Untouched.append h hos

private theorem account_closeNext {rest : List SubPtr} (h : Untouched log c) :
    (Pc.closeNext rest).Account log c n := by
  cases rest <;> exact h

private theorem untouched_report (pc : Pc) : Untouched (pc.report c) c := by
  refine untouched_of fun o ho _ => ?_
  obtain ⟨r, -, rfl⟩ := Pc.mem_report.mp ho
  exact .inr ⟨r, rfl⟩

/-- A quiet move keeps the account of its call. -/
private theorem Quiet.account (h : Quiet w c a pc pc') (hacc : pc.Account log c n) :
    pc'.Account (log ++ pc'.report c) c n := by
  refine Pc.Account.append ?_ (untouched_report pc')
  cases h with
  | publishClosed | publishDraining | subscribeRefused | drainCtx => exact .inl hacc
  | enqueueClosed =>
    obtain ⟨sent, hf⟩ := hacc
    exact .inr ⟨sent, _, hf⟩
  | closeOnceAfter => exact account_closeNext hacc
  | @closeWait _ drain => cases drain <;> exact hacc
  | _ => exact hacc

/-- What `cacheEvent` of call `c` adds to its account. -/
private theorem cachings_cacheObs (b : Broker) (ev : Event) :
    snapshots (Bus.cacheObs b ⟨c, ev⟩) c = [] ∧ directs (Bus.cacheObs b ⟨c, ev⟩) c = [] ∧
    cachings (Bus.cacheObs b ⟨c, ev⟩) c = if b.config.cacheSize = 0 then [] else [⟨c, ev⟩] := by
  simp only [Bus.cacheObs]
  split
  · exact ⟨rfl, rfl, rfl⟩
  split
  · have hev : Untouched (((b.cached ev.topic).take 1).map .evicted) c :=
      untouched_of fun o ho hact => by
        obtain ⟨y, -, rfl⟩ := List.mem_map.mp ho
        cases hact
    obtain ⟨hsnap, hdir, hcach⟩ := hev
    simp only [snapshots_append, directs_append, cachings_append, hsnap, hdir, hcach]
    exact ⟨rfl, rfl, by simp [cachings]⟩
  · exact ⟨rfl, rfl, by simp [cachings]⟩

/-- Every move keeps the account of its call. -/
private theorem Move.account (h : Move w c a pc pc' w₁ os) (hlog : LogInv log w)
    (hpc : w.calls c = some pc) (hacc : pc.Account log c w.broker.config.cacheSize) :
    pc'.Account (log ++ os) c w.broker.config.cacheSize := by
  cases h with
  | quiet hq => exact hq.account hacc
  | @publishCached oldest ev =>
    obtain ⟨hsnap, hdir, hcach⟩ := hacc
    -- no subscriber: the event goes to the cache, and to no queue
    obtain ⟨hsnap', hdir', hcach'⟩ := cachings_cacheObs w.broker (c := c) ev
    refine .inl ⟨?_, ?_, ev, (hlog.publisher c _ ev hpc rfl).append _, ?_⟩
    · rw [snapshots_append, hsnap, List.nil_append, ← List.singleton_append, snapshots_append,
        snapshots_append, hsnap']
      simp [snapshots]
    · rw [directs_append, hdir, List.nil_append, ← List.singleton_append, directs_append,
        directs_append, hdir']
      rfl
    · rw [cachings_append, hcach, List.nil_append, ← List.singleton_append, cachings_append,
        cachings_append, hcach']
      simp [cachings]
  | @publishSnapshot order oldest ev _ _ _ _ hne =>
    obtain ⟨hsnap, hdir, hcach⟩ := hacc
    refine ⟨[], ?_, hne, ?_, ?_⟩
    · rw [snapshots_append, hsnap]
      simp [snapshots]
    · rw [directs_append, hdir]
      rfl
    · rw [cachings_append, hcach]
      rfl
  | @enqueueSend ev s todo =>
    obtain ⟨sent, hsnap, hne, hdir, hcach⟩ := hacc
    refine ⟨sent, ?_, by simp, ?_, ?_⟩
    · rw [snapshots_append, hsnap]
      simp [snapshots]
    · rw [directs_append, hdir]
      simp [directs]
    · rw [cachings_append, hcach]
      rfl
  | enqueueEnter =>
    rw [List.append_nil]
    exact hacc
  | @enqueueReturn ev s todo =>
    -- the subscription just served joins those that were sent the event
    obtain ⟨sent, hf⟩ := hacc
    rw [List.append_nil]
    exact ⟨sent ++ [s], hf⟩
  | enqueueFail =>
    obtain ⟨sent, hf⟩ := hacc
    exact .inr ⟨sent, _, hf.append (untouched_report (.returned (.failed _)))⟩
  | publishLeave =>
    obtain ⟨sent, hf⟩ := hacc
    exact .inr ⟨sent, hf.append (untouched_report (.returned .published))⟩
  | closeBroker =>
    exact account_closeNext (Untouched.append hacc (untouched_report _))
  | closeEvents =>
    refine account_closeNext (Untouched.append hacc (untouched_of fun o ho hact => ?_))
    rcases List.mem_cons.mp ho with rfl | ho
    · cases hact
    · obtain ⟨r, -, rfl⟩ := Pc.mem_report.mp ho
      exact .inr ⟨r, rfl⟩
  | subscribe =>
    refine Untouched.append hacc (untouched_of fun o ho hact => ?_)
    simp only [List.mem_append, List.mem_map, List.mem_singleton] at ho
    rcases ho with ⟨y, -, rfl⟩ | rfl
    · cases hact
    · exact .inr ⟨_, rfl⟩
  | beginShutdown => exact Untouched.append hacc (untouched_report (.returned .ok))
  | enqueuePanic =>
    obtain ⟨sent, hf⟩ := hacc
    exact .inr ⟨sent, _, hf.append (untouched_singleton rfl)⟩
  | closeMarkPanic | closeEventsPanic =>
    exact .inl (Untouched.append hacc (untouched_singleton rfl))
  | closeMark | closeDiscard => exact Untouched.append hacc (untouched_singleton rfl)
  | _ =>
    rw [List.append_nil]
    exact hacc

/-- No step changes the configuration. -/
theorem Effect.config (h : Effect w a w' os) : w'.broker.config = w.broker.config := by
  cases h with
  | call _ hm =>
    cases hm with
    | publishCached _ _ _ _ hrem =>
      exact (Broker.remember_frame hrem).2.2.1.trans (Broker.cacheEvent_config _ _)
    | publishLeave hrem => exact (Broker.remember_frame hrem).2.2.1
    | subscribe => simp [Bus.subscribeBroker, Broker.register]
    | closeDeregister => simp
    | _ => rfl
  | _ => rfl

/-- Every step keeps the account of every call. -/
theorem account_step (h : Effect w a w' os) (hlog : LogInv log w) (hacc : Accounted log w c) :
    Accounted (log ++ os) w' c := by
  simp only [Accounted] at hacc ⊢
  rw [h.config]
  rcases h.cases_call c with ⟨hsame, hnot⟩ | ⟨op, hnone, hpc', rfl⟩ | ⟨pc, pc', w₁, hpc, hm, rfl⟩
  · have hos : Untouched os c := untouched_of fun o ho hact => absurd hact (hnot o ho)
    rw [hsame]
    cases hpc : w.calls c with
    | none =>
      rw [hpc] at hacc
      exact Untouched.append hacc hos
    | some pc =>
      rw [hpc] at hacc
      exact Pc.Account.append hacc hos
  · rw [hnone] at hacc
    rw [hpc']
    cases op with
    | _ =>
      refine Untouched.append hacc (untouched_of fun o ho _ => ?_)
      exact .inl ⟨_, List.mem_singleton.mp ho⟩
  · rw [hpc] at hacc
    rw [Bus.setPc_calls_self]
    exact hm.account hlog hpc hacc

end Account

/-- The account of every call holds at the end of every run. -/
theorem account_inv {config : Config} (h : (Bus.lts config).Reach G log w) (c : CallId) :
    Accounted log w c := by
  refine h.induct_reach (P := fun log w => Accounted log w c) ?_ ?_
  · rintro _ rfl
    exact ⟨rfl, rfl, rfl⟩
  · exact fun log w a w' os hr hacc _ hstep => account_step (step_effect hstep) (log_inv hr) hacc

/-- The configuration is that of `New`. -/
theorem config_inv {config : Config} (h : (Bus.lts config).Reach G log w) :
    w.broker.config = config.normalise := by
  refine h.invariant (P := fun _ w => w.broker.config = config.normalise) ?_ ?_
  · rintro _ rfl
    rfl
  · exact fun log w a w' os ih _ hstep => (step_effect hstep).config.trans ih

/-! ## From the topic cache to the queues -/

/-- How many copies of the event of call `c` the cache of a topic holds. -/
def Broker.copies (b : Broker) (t : Bytes) (c : CallId) : Nat :=
  (b.cached t).countP fun x => x.call = c

section Replay

variable {os : List Obs} {w' : Bus} {a : Action} {t : Bytes}

theorem mem_replays :
    p ∈ replays log c ↔ ∃ x, x.call = c ∧ .put p x .replay ∈ log := by
  simp only [replays, List.mem_filterMap]
  constructor
  · rintro ⟨o, ho, hp⟩
    split at hp
    · simp only [Option.ite_none_right_eq_some, Option.some.injEq] at hp
      obtain ⟨hx, rfl⟩ := hp
      exact ⟨_, hx, ho⟩
    · cases hp
  · rintro ⟨x, hx, ho⟩
    exact ⟨_, ho, by simp [hx]⟩

theorem replays_eq_nil (h : ∀ p x, x.call = c → .put p x .replay ∉ os) : replays os c = [] := by
  rw [List.eq_nil_iff_forall_not_mem]
  intro p hp
  obtain ⟨x, hx, ho⟩ := mem_replays.mp hp
  exact h p x hx ho

/-- The copies of one call are cached for one topic. -/
private theorem copies_eq_zero (hlog : LogInv log w) {topic : Bytes}
    (hx : x ∈ w.broker.cached topic) (ht : t ≠ topic) : w.broker.copies t x.call = 0 := by
  rw [Broker.copies, List.countP_eq_zero]
  intro y hy hcall
  obtain ⟨htx, hbyx⟩ := hlog.cached topic x hx
  obtain ⟨hty, hbyy⟩ := hlog.cached t y hy
  rw [of_decide_eq_true hcall] at hbyy
  rw [← hty, ← htx, hlog.event_unique hbyx hbyy] at ht
  exact ht rfl

/-- What `Subscribe` replays of call `c` is what it takes of it from the cache. -/
private theorem replays_subscribe (w : Bus) (d : CallId) (topic : Bytes) (r : Ret) (p : SubPtr) :
    (replays ((w.replayed topic).map (.put p · .replay) ++ [.returned d r]) c).length =
      (w.replayed topic).countP fun x => x.call = c := by
  rw [replays_append, List.length_append]
  simp only [replays, List.filterMap_map, List.countP_eq_length_filter]
  induction w.replayed topic with
  | nil => rfl
  | cons x xs ih =>
    simp only [List.filterMap_cons, List.filter_cons, Function.comp_apply]
    by_cases hx : x.call = c <;> simp_all

/-- `cacheEvent` adds at most the copy it reports. -/
private theorem copies_cacheEvent (b : Broker) (x : Copy) :
    (b.cacheEvent x).copies t c ≤ b.copies t c + (cachings (Bus.cacheObs b x) c).length := by
  have hkept : (b.kept t).countP (fun x => x.call = c) ≤ (b.cached t).countP fun x => x.call = c :=
    (b.kept_sublist t).countP_le
  simp only [Broker.copies, Broker.cached_cacheEvent]
  split
  · rename_i hnew
    rw [List.countP_append, List.countP_singleton]
    by_cases hx : x.call = c
    · have hrep : x ∈ cachings (Bus.cacheObs b x) c :=
        List.mem_filterMap.mpr ⟨.cached x, by simp [hnew.1], by simp [hx]⟩
      have := List.length_pos_of_mem hrep
      simp only [hx, decide_true, if_true]
      omega
    · simp only [hx, decide_false, Bool.false_eq_true, if_false]
      omega
  · omega

/-- Copies in the cache and replays together never outnumber the cachings. -/
private theorem copies_step (h : Effect w a w' os) (hlog : LogInv log w)
    (hinv : ∀ t, w.broker.copies t c + (replays log c).length ≤ (cachings log c).length) :
    w'.broker.copies t c + (replays (log ++ os) c).length ≤ (cachings (log ++ os) c).length := by
  -- steps that leave the cache of the topic and replay nothing
  have hsame : w'.broker.cached t = w.broker.cached t → (∀ p x, .put p x .replay ∉ os) →
      w'.broker.copies t c + (replays (log ++ os) c).length ≤
        (cachings (log ++ os) c).length := by
    intro hcache hno
    have := hinv t
    simp only [Broker.copies, hcache, replays_append, replays_eq_nil fun p x _ => hno p x,
      List.append_nil, cachings_append, List.length_append] at this ⊢
    omega
  cases h with
  | @call d _ _ _ _ _ hpc hm =>
    cases hm with
    | @publishCached oldest ev b _ _ _ _ hrem =>
      have hb : b.copies t c = (w.broker.cacheEvent ⟨d, ev⟩).copies t c := by
        simp only [Broker.copies, Broker.cached_congr (Broker.remember_frame hrem).2.1]
      have hadd := copies_cacheEvent (t := t) (c := c) w.broker ⟨d, ev⟩
      have hnil : replays (.snapshot d [] :: (Bus.cacheObs w.broker ⟨d, ev⟩ ++
          [.returned d .published])) c = [] := replays_eq_nil (by simp)
      have := hinv t
      rw [replays_append, hnil, List.append_nil, cachings_append, ← List.singleton_append,
        cachings_append, cachings_append]
      simp only [Bus.setPc_broker, Bus.setBroker_broker, hb, List.length_append]
      omega
    | @subscribe topic =>
      have hreplays := replays_subscribe (c := c) w d topic (.subscribed w.subs.length)
        w.subs.length
      -- a replay moves copies out of the cache
      have hcount : (w.replayed topic).countP (fun x => x.call = c) +
          (w.subscribeBroker topic).copies topic c = w.broker.copies topic c := by
        simp only [Broker.copies, ← w.replayed_append topic, List.countP_append]
      simp only [replays_append, cachings_append, List.length_append] at hreplays ⊢
      by_cases ht : t = topic
      · subst ht
        have := hinv t
        simp only [Bus.setPc_broker]
        omega
      · rw [Bus.setPc_broker, Broker.copies, w.subscribeBroker_cached_ne ht, ← Broker.copies]
        by_cases hzero : (w.replayed topic).countP (fun x => x.call = c) = 0
        · have := hinv t
          omega
        · -- the replayed copy is of this topic, so that the cache of `t` holds none
          obtain ⟨x, hx, hcall⟩ := List.countP_pos_iff.mp (Nat.pos_of_ne_zero hzero)
          obtain rfl := of_decide_eq_true hcall
          have := hinv topic
          rw [copies_eq_zero hlog (List.mem_of_mem_take hx) ht]
          omega
    | publishLeave hrem =>
      exact hsame (Broker.cached_congr (Broker.remember_frame hrem).2.1 t) (by simp)
    | closeDeregister =>
      exact hsame (Broker.cached_congr (Broker.deregister_cache _ _ _) t) (by simp)
    | _ => exact hsame rfl (by simp)
  | _ => exact hsame rfl (by simp)

end Replay

/-- An event is replayed at most as often as its call cached it. -/
theorem replays_le {config : Config} (h : (Bus.lts config).Reach G log w) (c : CallId) :
    (replays log c).length ≤ (cachings log c).length := by
  have hall : ∀ t, w.broker.copies t c + (replays log c).length ≤ (cachings log c).length := by
    refine h.induct_reach (P := fun log w => ∀ t, w.broker.copies t c + (replays log c).length ≤
      (cachings log c).length) ?_ ?_
    · rintro _ rfl t
      exact Nat.le_refl _
    · exact fun log w a w' os hr hinv _ hstep t =>
        copies_step (step_effect hstep) (log_inv hr) hinv
  have := hall []
  omega

/-! ## Subscriptions that stay registered -/

section Registered

variable {os : List Obs} {w' : Bus} {a : Action} {topic : Bytes}

/-- The copies of call `c` given to `p` are those it sent and those replayed. -/
theorem given_countP (log : List Obs) (c : CallId) (p : SubPtr) :
    ((given log p).countP fun x => x.call = c) =
      (directs log c).count p + (replays log c).count p := by
  induction log with
  | nil => rfl
  | cons o log ih =>
    simp only [given, directs, replays, List.filterMap_cons] at ih ⊢
    cases o with
    | put s x route =>
      cases route <;> by_cases hs : s = p <;> by_cases hx : x.call = c <;>
        simp_all <;> omega
    | _ => exact ih

/-- The first critical section of a publisher: it copies what is registered, and with
    nothing registered it appends its event to the topic's cache. -/
theorem Effect.snapshot_mem (h : Effect w a w' os) (ho : .snapshot c order ∈ os) :
    ∃ ev oldest, w.calls c = some (.publish ev) ∧ a = .publishEnter c order oldest ∧
      order.Perm (w.broker.registered ev.topic) ∧
      (order = [] → w.broker.config.cacheSize ≠ 0 →
        ∃ older, w'.broker.cached ev.topic = older ++ [⟨c, ev⟩]) := by
  cases h with
  | @call d _ _ _ _ _ hpc hm =>
    cases hm with
    | @publishCached oldest ev b _ _ _ hreg hrem =>
      obtain ⟨rfl, rfl⟩ : c = d ∧ order = [] := by simpa using ho
      refine ⟨ev, oldest, hpc, rfl, by rw [hreg], fun _ hsize => ⟨w.broker.kept ev.topic, ?_⟩⟩
      have hb := Broker.cached_congr (Broker.remember_frame hrem).2.1 ev.topic
      rw [Bus.setPc_broker, Bus.setBroker_broker, hb, Broker.cached_cacheEvent,
        if_pos ⟨hsize, rfl⟩]
    | @publishSnapshot order' oldest ev _ _ _ hperm hne =>
      obtain ⟨rfl, rfl⟩ : c = d ∧ order = order' := by simpa using ho
      exact ⟨ev, oldest, hpc, rfl, hperm, fun hnil => absurd hnil hne⟩
    | _ => simp at ho
  | _ => simp at ho

/-- A subscription whose queue was discarded is not registered. -/
private theorem discarded_step (h : Effect w a w' os) (hreg : w.RegistryInv)
    (ho : .discarded p x ∈ os) : p < w.subs.length ∧ w.Unregistered p := by
  cases h with
  | call hpc hm =>
    cases hm with
    | closeDiscard =>
      simp only [List.mem_singleton, Obs.discarded.injEq] at ho
      obtain ⟨rfl, -⟩ := ho
      exact hreg.closing _ _ p hpc (by simp [Pc.closing])
    | _ => simp at ho
  | _ => simp at ho

variable {config : Config}

/-- Leaving the registry is permanent. -/
theorem unregistered_steps (h : (Bus.lts config).Steps G w log w') (halloc : p < w.subs.length)
    (hun : w.Unregistered p) : p < w'.subs.length ∧ w'.Unregistered p := by
  refine h.stable (P := fun w => p < w.subs.length ∧ w.Unregistered p) ⟨halloc, hun⟩ ?_
  rintro w a w' os ⟨halloc, hun⟩ - hstep
  exact ⟨(step_effect hstep).alloc halloc, unregistered_step (step_effect hstep) halloc hun⟩

theorem not_discarded (h : (Bus.lts config).Reach G log w) (hp : p ∈ w.broker.registered topic)
    (x : Copy) : .discarded p x ∉ log := by
  intro ho
  obtain ⟨w₀, hinit, hsteps⟩ := h
  obtain ⟨log₁, w₁, a, w₂, os, log₂, h₁, -, hstep, hmem, h₂, -⟩ := hsteps.exists_step_of_mem ho
  obtain ⟨halloc, hun⟩ :=
    discarded_step (step_effect hstep) (registry_inv ⟨w₀, hinit, h₁⟩) hmem
  obtain ⟨-, hun'⟩ := unregistered_steps h₂ ((step_effect hstep).alloc halloc)
    (unregistered_step (step_effect hstep) halloc hun)
  exact (w.unregistered_iff p).mp hun' topic hp

/-- What was taken from the queue of a registered subscription was received. -/
theorem taken_eq_receivedFrom (h : (Bus.lts config).Reach G log w)
    (hp : p ∈ w.broker.registered topic) : taken log p = receivedFrom log p := by
  refine List.filterMap_congr fun o ho => ?_
  cases o with
  | discarded s x =>
    have hne : s ≠ p := fun heq => not_discarded h hp x (heq ▸ ho)
    simp [hne]
  | _ => rfl

/-- A subscription registered at both ends of a run is registered in between. -/
theorem registered_between {log₂ : List Obs} (h₀ : (Bus.lts config).Reach G log₀ w)
    (h₁ : (Bus.lts config).Steps G w log₁ w₁) (h₂ : (Bus.lts config).Steps G w₁ log₂ w')
    (hp : p ∈ w.broker.registered topic) (hp' : p ∈ w'.broker.registered topic) :
    p ∈ w₁.broker.registered topic := by
  obtain ⟨id, he⟩ := (Broker.mem_registered _ _ _).mp hp
  obtain ⟨sub, hs, rfl, -⟩ := (registry_inv h₀).own _ id p he
  obtain ⟨sub₁, hs₁, ht₁⟩ : ∃ sub₁, w₁.subs[p]? = some sub₁ ∧ sub₁.topic = sub.topic := by
    refine h₁.stable (P := fun w => ∃ sub₁, w.subs[p]? = some sub₁ ∧ sub₁.topic = sub.topic)
      ⟨sub, hs, rfl⟩ ?_
    rintro w a w' os ⟨sub₁, hs₁, ht₁⟩ - hstep
    obtain ⟨sub₂, hs₂, hl⟩ := (step_effect hstep).later p sub₁ hs₁
    exact ⟨sub₂, hs₂, hl.topic.trans ht₁⟩
  by_contra hnot
  -- otherwise it is registered nowhere, since it could only be under its own topic
  have hun : w₁.Unregistered p := by
    intro topic' id' he'
    obtain ⟨sub₂, hs₂, ht₂, -⟩ := (registry_inv (h₀.trans h₁)).own topic' id' p he'
    rw [hs₁] at hs₂
    cases hs₂
    rw [← ht₁, ht₂] at hnot
    exact hnot ((Broker.mem_registered _ _ _).mpr ⟨id', he'⟩)
  obtain ⟨-, hun'⟩ := unregistered_steps h₂ (List.getElem?_eq_some_iff.mp hs₁).1 hun
  exact (w'.unregistered_iff p).mp hun' _ hp'

end Registered

/-! ## At most one copy -/

/-- Whatever it is doing, a call has not touched its event, has cached it or is sending it. -/
theorem account_cases (h : Accounted log w c) :
    Untouched log c ∨ InCache log c w.broker.config.cacheSize ∨
      ∃ sent todo, InFanOut log c sent todo := by
  simp only [Accounted] at h
  cases hpc : w.calls c with
  | none =>
    rw [hpc] at h
    exact .inl h
  | some pc =>
    rw [hpc] at h
    cases pc with
    | fanOut | enqueueEntered | enqueueSelect =>
      obtain ⟨sent, hf⟩ := h
      exact .inr (.inr ⟨sent, _, hf⟩)
    | enqueueExit _ s todo err =>
      cases err <;>
      · obtain ⟨sent, hf⟩ := h
        exact .inr (.inr ⟨_, _, hf⟩)
    | panicked => exact h.imp_right .inr
    | returned r =>
      cases r with
      | published =>
        rcases h with hc | ⟨sent, hf⟩
        · exact .inr (.inl hc)
        · exact .inr (.inr ⟨sent, [], hf⟩)
      | failed => exact h.imp_right .inr
      | _ => exact .inl h
    | _ => exact .inl h

/-- A snapshot lists each subscription once. -/
theorem snapshot_nodup {config : Config} (h : (Bus.lts config).Reach G log w)
    (ho : .snapshot c order ∈ log) : order.Nodup := by
  obtain ⟨w₀, hinit, hsteps⟩ := h
  obtain ⟨log₁, w₁, a, w₂, os, log₂, h₁, -, hstep, hmem, -, -⟩ := hsteps.exists_step_of_mem ho
  obtain ⟨ev, oldest, -, -, hperm, -⟩ := (step_effect hstep).snapshot_mem hmem
  exact hperm.nodup_iff.mpr (registered_nodup (registry_inv ⟨w₀, hinit, h₁⟩) _)

theorem mem_snapshots :
    order ∈ snapshots log c ↔ .snapshot c order ∈ log := by
  simp only [snapshots, List.mem_filterMap]
  constructor
  · rintro ⟨o, ho, hf⟩
    split at hf
    · simp only [Option.ite_none_right_eq_some, Option.some.injEq] at hf
      obtain ⟨rfl, rfl⟩ := hf
      exact ho
    · cases hf
  · exact fun ho => ⟨_, ho, by simp⟩

private theorem mem_of_snapshots (h : snapshots log c = [order]) : .snapshot c order ∈ log :=
  mem_snapshots.mp (by simp [h])

/-- No call gives a queue more than one copy of its event. -/
theorem given_le_one {config : Config} (h : (Bus.lts config).Reach G log w) (c : CallId)
    (p : SubPtr) :
    ((given log p).countP fun x => x.call = c) ≤ 1 := by
  have hrep := replays_le h c
  have hcount : (replays log c).count p ≤ (replays log c).length := List.count_le_length
  rw [given_countP]
  rcases account_cases (account_inv h c) with
    ⟨-, hdir, hcach⟩ | ⟨-, hdir, ev, -, hcach⟩ | ⟨sent, todo, hsnap, -, hdir, hcach⟩
  · rw [hcach, List.length_nil] at hrep
    rw [hdir, List.count_nil]
    omega
  · have hone : (cachings log c).length ≤ 1 := by
      rw [hcach]
      split <;> simp
    rw [hdir, List.count_nil]
    omega
  · have hnodup : (sent ++ todo).Nodup := snapshot_nodup h (mem_of_snapshots hsnap)
    have hsent := List.nodup_iff_count_le_one.mp hnodup.of_append_left p
    rw [hcach, List.length_nil] at hrep
    rw [hdir]
    omega

/-! ## The main result -/

section Accounting

variable {config : Config} {ev : Event}

/-- The account of a call that has returned `Published`. -/
theorem published_account (h : (Bus.lts config).Reach G log w)
    (hret : .returned c .published ∈ log) :
    InCache log c config.normalise.cacheSize ∨ ∃ sent, InFanOut log c sent [] := by
  have hacc := account_inv h c
  rwa [Accounted, ((log_inv h).returned c .published).mp hret, config_inv h] at hacc

/-- The subscribers copied by a call that has returned `Published`. -/
private theorem exists_snapshot (h : (Bus.lts config).Reach G log w)
    (hret : .returned c .published ∈ log) : ∃ order, snapshots log c = [order] := by
  rcases published_account h hret with ⟨hsnap, -⟩ | ⟨sent, hsnap, -⟩
  · exact ⟨_, hsnap⟩
  · exact ⟨_, hsnap⟩

/-- The event a call publishes at an earlier point of the run. -/
private theorem event_at {ev' : Event} (h : (Bus.lts config).Reach G log w)
    (h₁ : (Bus.lts config).Reach G log₁ w₁) (hby : PublishedBy log c ev)
    (hpc : w₁.calls c = some (.publish ev')) (hpre : ∃ rest, log = log₁ ++ rest) : ev' = ev := by
  obtain ⟨rest, rfl⟩ := hpre
  exact (log_inv h).event_unique (((log_inv h₁).publisher c _ ev' hpc rfl).append rest) hby

/-- A subscription that is registered from before the call until after it is given exactly
    one copy. -/
private theorem given_once (h : (Bus.lts config).Reach Lts.Always log w)
    (hby : PublishedBy log c ev) (hret : .returned c .published ∈ log) {w₀ : Bus}
    (h₀ : (Bus.lts config).Reach Lts.Always log₀ w₀)
    (h₁ : (Bus.lts config).Steps Lts.Always w₀ log₁ w) (heq : log = log₀ ++ log₁)
    (hnone : w₀.calls c = none) (hp₀ : p ∈ w₀.broker.registered ev.topic)
    (hp : p ∈ w.broker.registered ev.topic) :
    ((given log p).countP fun x => x.call = c) = 1 := by
  obtain ⟨order, horder⟩ := exists_snapshot h hret
  -- the snapshot was taken after the call started, in a state where `p` was registered
  have hmem : .snapshot c order ∈ log₁ := by
    have hnot : .snapshot c order ∉ log₀ := by
      intro ho
      have hacc := account_inv h₀ c
      rw [Accounted, hnone] at hacc
      have := mem_snapshots.mpr ho
      rw [hacc.1] at this
      exact nomatch this
    exact (List.mem_append.mp (heq ▸ mem_of_snapshots horder)).resolve_left hnot
  obtain ⟨log₂, w₂, a, w₃, os, log₃, h₂, -, hstep, ho, h₃, heq₁⟩ := h₁.exists_step_of_mem hmem
  obtain ⟨ev', oldest, hpc, -, hperm, -⟩ := (step_effect hstep).snapshot_mem ho
  have hreach₂ := h₀.trans h₂
  obtain rfl : ev' = ev := event_at h hreach₂ hby hpc ⟨os ++ log₃, by rw [heq, heq₁]; simp⟩
  have hreg : p ∈ order := hperm.mem_iff.mpr
    (registered_between h₀ h₂ ((Lts.Steps.single trivial hstep).trans h₃) hp₀ hp)
  have hnodup : order.Nodup := snapshot_nodup h (mem_of_snapshots horder)
  -- so the call has sent one copy to `p`, and there was nothing to replay
  rcases published_account h hret with ⟨hsnap, -⟩ | ⟨sent, hsnap, -, hdir, hcach⟩
  · rw [horder, List.cons.injEq] at hsnap
    rw [hsnap.1] at hreg
    cases hreg
  · rw [horder, List.append_nil, List.cons.injEq] at hsnap
    have hrep : replays log c = [] := by
      have := replays_le h c
      rw [hcach] at this
      exact List.length_eq_zero_iff.mp (Nat.le_zero.mp this)
    rw [given_countP, hdir, ← hsnap.1, hrep, List.count_eq_one_of_mem hnodup hreg,
      List.count_nil]

end Accounting

/-- Fan-out accounting. In every run, for every call of `PublishWithResult` that has
    returned `Published`: no queue was ever given anything but its event on its behalf, and
    the call took one snapshot of the subscriptions registered for the topic. With an empty
    snapshot it sent nothing itself, appended the event to the topic's cache (if there is
    one), and the event was replayed to at most one queue. Otherwise it put the event once
    in the queue of each subscription of the snapshot, in no other, and never in the cache.
    A subscription registered from before the call started until the end of the run holds or
    has yielded exactly one copy. -/
theorem fan_out_accounting {config : Config} {log : List Obs} {w : Bus}
    (h : (Bus.lts config).Reach Lts.Always log w) {c : CallId} {ctx : Ctx} {ev : Event}
    (hcall : .invoked c (.publishWithResult ctx ev) ∈ log)
    (hret : .returned c .published ∈ log) :
    (∀ p x route, .put p x route ∈ log → x.call = c → x.event = ev) ∧
    (∃ log₁ w₁ order oldest w₂ os log₂, (Bus.lts config).Reach Lts.Always log₁ w₁ ∧
      w₁.step (.publishEnter c order oldest) = some (w₂, os) ∧
      (Bus.lts config).Steps Lts.Always w₂ log₂ w ∧ log = log₁ ++ os ++ log₂ ∧
      order.Perm (w₁.broker.registered ev.topic) ∧ snapshots log c = [order] ∧
      ((order = [] ∧ directs log c = [] ∧ (replays log c).length ≤ 1 ∧
          (0 < config.normalise.cacheSize → cachings log c = [⟨c, ev⟩] ∧
            ∃ older, w₂.broker.cached ev.topic = older ++ [⟨c, ev⟩])) ∨
        (order ≠ [] ∧ order.Nodup ∧ directs log c = order ∧ cachings log c = [] ∧
          replays log c = []))) ∧
    ∀ log₀ w₀ log₁ p, (Bus.lts config).Reach Lts.Always log₀ w₀ →
      (Bus.lts config).Steps Lts.Always w₀ log₁ w → log = log₀ ++ log₁ → w₀.calls c = none →
      p ∈ w₀.broker.registered ev.topic → p ∈ w.broker.registered ev.topic →
      (receivedFrom log p ++ w.queue p).countP (fun x => x.call = c) = 1 := by
  have hlog := log_inv h
  have hby : PublishedBy log c ev := ⟨ctx, hcall⟩
  refine ⟨?_, ?_, ?_⟩
  · rintro p x route ho rfl
    exact hlog.event_unique (hlog.put p x route ho).1 hby
  · obtain ⟨order, horder⟩ := exists_snapshot h hret
    obtain ⟨w₀, hinit, hsteps⟩ := h
    obtain ⟨log₁, w₁, a, w₂, os, log₂, h₁, -, hstep, ho, h₂, heq⟩ :=
      hsteps.exists_step_of_mem (mem_of_snapshots horder)
    have hreach₁ : (Bus.lts config).Reach Lts.Always log₁ w₁ := ⟨w₀, hinit, h₁⟩
    have h : (Bus.lts config).Reach Lts.Always log w := ⟨w₀, hinit, hsteps⟩
    obtain ⟨ev', oldest, hpc, rfl, hperm, hcached⟩ := (step_effect hstep).snapshot_mem ho
    obtain rfl : ev' = ev := event_at h hreach₁ hby hpc ⟨os ++ log₂, by rw [heq]; simp⟩
    refine ⟨log₁, w₁, order, oldest, w₂, os, log₂, hreach₁, hstep, h₂, heq, hperm, horder, ?_⟩
    rcases published_account h hret with
      ⟨hsnap, hdir, ev'', hby'', hcach⟩ | ⟨sent, hsnap, hne, hdir, hcach⟩
    · rw [horder, List.cons.injEq] at hsnap
      obtain rfl := hlog.event_unique hby'' hby
      refine .inl ⟨hsnap.1, hdir, ?_, fun hsize => ?_⟩
      · exact (replays_le h c).trans (by rw [hcach]; split <;> simp)
      · have hsize' : config.normalise.cacheSize ≠ 0 := Nat.pos_iff_ne_zero.mp hsize
        rw [if_neg hsize'] at hcach
        exact ⟨hcach, hcached hsnap.1 (by rwa [config_inv hreach₁])⟩
    · rw [horder, List.append_nil, List.cons.injEq] at hsnap
      obtain ⟨rfl, -⟩ := hsnap
      rw [List.append_nil] at hne
      have hrep := replays_le h c
      rw [hcach] at hrep
      exact .inr ⟨hne, snapshot_nodup h (mem_of_snapshots horder), hdir, hcach,
        List.length_eq_zero_iff.mp (Nat.le_zero.mp hrep)⟩
  · intro log₀ w₀ log₁ p h₀ h₁ heq hnone hp₀ hp
    rw [← taken_eq_receivedFrom h hp, ← given_eq h p]
    exact given_once h hby hret h₀ h₁ heq hnone hp₀ hp

/-- Two subscriptions, of which the first receives its copy before the call has returned: each
    has or has had one copy. -/
theorem fan_out_accounting_two_subscribers :
    ∃ log w, (Bus.lts ⟨1, 1, 1, .block⟩).Reach Lts.Always log w ∧
      .received 0 ⟨2, ⟨[1], [], [7], [], []⟩⟩ ∈ log ∧
      (receivedFrom log 0 ++ w.queue 0).countP (fun x => x.call = 2) = 1 ∧
      (receivedFrom log 1 ++ w.queue 1).countP (fun x => x.call = 2) = 1 := by
  obtain ⟨⟨w₀, log₀⟩, hrun₀, ⟨hnone, hfirst, hsecond⟩, ⟨w, log₁⟩, hrun₁, ⟨hcall, hret, hrecv⟩,
      hfirst', hsecond'⟩ :
      ∃ r₀ ∈ (Bus.lts ⟨1, 1, 1, .block⟩).runWhere Lts.Always (new ⟨1, 1, 1, .block⟩)
        (Broker.subscribeRun 0 ++ Broker.subscribeRun 1),
      (r₀.1.calls 2 = none ∧ 0 ∈ r₀.1.broker.registered [7] ∧ 1 ∈ r₀.1.broker.registered [7]) ∧
      ∃ r₁ ∈ (Bus.lts ⟨1, 1, 1, .block⟩).runWhere Lts.Always r₀.1
        (Broker.publishRun 2 1 [1, 0] ++ Broker.giveRun 2 ++
          [Action.enqueueEnter 2, .enqueueCheck 2, .enqueueSend 2, .receive 0, .enqueueReturn 2,
            .publishLeave 2 []]),
      (.invoked 2 (.publishWithResult .background ⟨[1], [], [7], [], []⟩) ∈ r₁.2 ∧
        .returned 2 .published ∈ r₁.2 ∧ .received 0 ⟨2, ⟨[1], [], [7], [], []⟩⟩ ∈ r₁.2) ∧
        0 ∈ r₁.1.broker.registered [7] ∧ 1 ∈ r₁.1.broker.registered [7] := by
    decide
  have h₀ : (Bus.lts ⟨1, 1, 1, .block⟩).Reach Lts.Always log₀ w₀ :=
    ⟨_, rfl, Lts.steps_of_runWhere _ _ _ _ hrun₀⟩
  have h₁ := Lts.steps_of_runWhere _ _ _ _ hrun₁
  have hacc := fan_out_accounting (h₀.trans h₁) (List.mem_append_right _ hcall)
    (List.mem_append_right _ hret)
  exact ⟨_, w, h₀.trans h₁, List.mem_append_right _ hrecv,
    hacc.2.2 log₀ w₀ log₁ 0 h₀ h₁ rfl hnone hfirst hfirst',
    hacc.2.2 log₀ w₀ log₁ 1 h₀ h₁ rfl hnone hsecond hsecond'⟩

end EventBus
