import EventBus.ForStd.Bounded
import EventBus.Spec.BrokerChannel
import EventBus.Spec.BrokerFanOut

/-!
# Progress of the broker's calls

A publisher takes a bounded number of steps of its own, and there is one place only where
it can be stopped: a full queue under `Block`. `Close`, and what is left of `Drain` once it
has seen the queue empty, need no consumer, no context and no new call: the calls in
progress can always bring them to their end.

## Key results

- `publish_bounded`: a publisher returns after `4 * n + 2` steps of its own, where `n` is the
  number of subscribers it saw
- `running_inside`: while `s.once.Do` runs, some call is inside it
- `close_completes`: nothing holds up a call that closes subscriptions
-/

namespace EventBus

variable {w w₁ w' : Bus} {c : CallId} {a : Action} {pc pc' : Pc} {os log log' : List Obs}
  {todo : List SubPtr} {sub sub' : Subscription} {p : SubPtr} {config : Config}

/-! ## Who moves -/

theorem Move.mover (hm : Move w c a pc pc' w₁ os) : a.mover = some c := by
  cases hm with
  | quiet hq => cases hq <;> rfl
  | _ => rfl

/-- A call stays where it is while it does not move. -/
theorem Effect.calls_of_mover (h : Effect w a w' os) (hne : a.mover ≠ some c) :
    w'.calls c = w.calls c := by
  cases h with
  | @invoke d op =>
    have hd : c ≠ d := fun heq => hne (congrArg some heq.symm)
    simp [hd]
  | @call d _ pc pc' w₁ _ _ hm =>
    have hd : c ≠ d := fun heq => hne (hm.mover.trans (congrArg some heq.symm))
    rw [Bus.setPc_calls_of_ne _ _ hd, hm.calls_eq]
  | cancel | receive | receiveEnd => rfl

/-- A step, seen from a call in progress: another one moves, or it moves itself. -/
theorem Effect.cases_mover (h : Effect w a w' os) (hc : w.calls c = some pc) :
    (a.mover ≠ some c ∧ w'.calls c = some pc) ∨
    ∃ pc' w₁, a.mover = some c ∧ Move w c a pc pc' w₁ os ∧ w' = w₁.setPc c pc' := by
  by_cases hown : a.mover = some c
  · rcases h with hnone | - | ⟨hpc, hm⟩ | - | -
    · cases hown
      simp [hnone] at hc
    · cases hown
    · obtain rfl := Option.some.inj (hown.symm.trans hm.mover)
      rw [hc, Option.some.injEq] at hpc
      subst hpc
      exact .inr ⟨_, _, hown, hm, rfl⟩
    · cases hown
    · cases hown
  · exact .inl ⟨hown, (h.calls_of_mover hown).trans hc⟩

/-! ## The work of a publisher -/

/-- The steps a publisher has before it, not counting the subscribers it has not yet seen. -/
def Pc.publishWork : Pc → Nat
  | .publish _ => 2
  | .fanOut _ todo => 4 * todo.length + 1
  | .enqueueEntered _ _ todo => 4 * todo.length + 4
  | .enqueueSelect _ _ todo => 4 * todo.length + 3
  | .enqueueExit _ _ todo _ => 4 * todo.length + 2
  | _ => 0

/-- A publisher on its way, or back. -/
def Pc.Publishing (pc : Pc) : Prop := pc.event.isSome ∨ ∃ r, pc = .returned r

/-- Each move of a publisher is one step of its work. -/
theorem Move.publishWork (hm : Move w c a pc pc' w₁ os) (hpub : pc.Publishing)
    (hpanic : ∀ p, .panicked p ∉ os) :
    pc'.Publishing ∧
      pc'.publishWork + 1 ≤ pc.publishWork + 4 * (snapshots os c).flatten.length := by
  have hev : pc.event.isSome := by
    rcases hpub with hev | ⟨r, rfl⟩
    · exact hev
    · exact absurd rfl hm.not_returned
  cases hm with
  | quiet hq =>
    cases hq with
    | publishClosed | publishDraining | publishDuplicate | enqueueClosed =>
      exact ⟨.inr ⟨_, rfl⟩, by simp only [Pc.publishWork]; omega⟩
    | enqueueCheckDone | enqueueCheckOpen | enqueueCtx | enqueueDone | enqueueFull =>
      exact ⟨.inl rfl, by simp only [Pc.publishWork]; omega⟩
    | _ => cases hev
  | publishCached | publishLeave | enqueueFail =>
    exact ⟨.inr ⟨_, rfl⟩, by simp only [Pc.publishWork]; omega⟩
  | publishSnapshot =>
    -- the only move that adds to the work: it reports for how many subscribers
    refine ⟨.inl rfl, ?_⟩
    simp only [Pc.publishWork, snapshots, List.filterMap_cons, if_true, List.filterMap_nil,
      List.flatten_cons, List.flatten_nil, List.append_nil]
    omega
  | enqueueEnter =>
    refine ⟨.inl rfl, ?_⟩
    simp only [Pc.publishWork, List.length_cons]
    omega
  | enqueueSend | enqueueReturn => exact ⟨.inl rfl, by simp only [Pc.publishWork]; omega⟩
  | enqueuePanic => exact absurd (List.mem_singleton.mpr rfl) (hpanic _)
  | _ => cases hev

/-! ## Where a publisher can be stopped -/

/-- Call `c` has a step to take. -/
def Bus.CanMove (w : Bus) (c : CallId) : Prop := ∃ a, a.mover = some c ∧ (w.step a).isSome

/-- Call `c` waits under `Block` for a free slot of an open subscription, with its context
    still open. -/
def Bus.AtFullQueue (w : Bus) (c : CallId) : Prop :=
  ∃ ev s todo sub, w.calls c = some (.enqueueSelect ev s todo) ∧ w.subs[s]? = some sub ∧
    sub.done = false ∧ sub.events.buf.length = sub.events.cap ∧
    w.broker.config.backpressure = .block ∧ ∀ err, w.ctxs c ≠ .done err

/-- Some iteration order lets `remember` make room for the key. -/
theorem Broker.exists_remember (b : Broker) (topic id : Bytes) :
    ∃ oldest b', b.remember topic id oldest = some b' := by
  simp only [Broker.remember]
  split
  · exact ⟨[], b, rfl⟩
  · rename_i hsize
    split
    · rename_i hfull
      have hpos : 0 < (b.remembered topic).card := by
        have : b.config.deduplicationSize ≠ 0 := fun h => hsize (.inr h)
        omega
      obtain ⟨k, hk⟩ := Finset.card_pos.mp hpos
      exact ⟨k, _, if_pos hk⟩
    · exact ⟨[], _, rfl⟩

section Publisher

variable {ev : Event}

private theorem publish_enabled (hc : w.calls c = some (.publish ev)) : w.CanMove c := by
  obtain ⟨oldest, b, hrem⟩ :=
    (w.broker.cacheEvent ⟨c, ev⟩).exists_remember ev.topic (idempotencyKey ev)
  refine ⟨.publishEnter c (w.broker.registered ev.topic) oldest, rfl, ?_⟩
  simp only [Bus.step, Bus.publishEnter, hc, hrem, List.Perm.refl, if_true]
  -- every branch of the first critical section ends in a state
  split <;> [rfl; split <;> [rfl; split <;> [rfl; split <;> rfl]]]

private theorem fanOut_enabled (hinv : w.RegistryInv) (hc : w.calls c = some (.fanOut ev todo)) :
    w.CanMove c := by
  cases todo with
  | nil =>
    obtain ⟨oldest, b, hrem⟩ := w.broker.exists_remember ev.topic (idempotencyKey ev)
    exact ⟨.publishLeave c oldest, rfl, by simp [Bus.step, Bus.publishLeave, hc, hrem]⟩
  | cons s todo =>
    have halloc : s < w.subs.length := hinv.targets c _ s hc (List.mem_cons_self ..)
    refine ⟨.enqueueEnter c, rfl, ?_⟩
    simp only [Bus.step, Bus.enqueueEnter, hc, List.getElem?_eq_getElem halloc]
    split <;> rfl

/-- At the `select` some case is ready, or the publisher waits for a slot. -/
private theorem enqueueSelect_enabled {s : SubPtr}
    (hc : w.calls c = some (.enqueueSelect ev s todo)) (hs : w.subs[s]? = some sub) :
    w.CanMove c ∨ w.AtFullQueue c := by
  by_cases hdone : sub.done
  · exact .inl ⟨.enqueueDone c, rfl, by simp [Bus.step, Bus.enqueueDone, hc, hs, hdone]⟩
  rw [Bool.not_eq_true] at hdone
  cases hsend : sub.events.send ⟨c, ev⟩ with
  | done | panics =>
    exact .inl ⟨.enqueueSend c, rfl, by simp [Bus.step, Bus.enqueueSend, hc, hs, hsend]⟩
  | blocked =>
    by_cases hpol : w.broker.config.backpressure = .drop
    · exact .inl ⟨.enqueueDefault c, rfl, by
        simp [Bus.step, Bus.enqueueDefault, hc, hs, hpol, hdone, hsend]⟩
    by_cases hctx : ∃ err, w.ctxs c = .done err
    · obtain ⟨err, hctx⟩ := hctx
      exact .inl ⟨.enqueueCtx c, rfl, by simp [Bus.step, Bus.enqueueCtx, hc, hctx, hpol]⟩
    · refine .inr ⟨ev, s, todo, sub, hc, hs, hdone, ?_, ?_, fun err h => hctx ⟨err, h⟩⟩
      · exact ((Chan.send_blocked_iff _ _).mp hsend).2
      · cases hb : w.broker.config.backpressure with
        | block => rfl
        | drop => exact absurd hb hpol

/-- A publisher that cannot move waits for a slot of a full queue. -/
theorem publisher_moves (hinv : w.RegistryInv) (hc : w.calls c = some pc) (hev : pc.event.isSome) :
    w.CanMove c ∨ w.AtFullQueue c := by
  -- a subscription that is being sent to exists
  have hget : ∀ s ∈ pc.targets, ∃ sub, w.subs[s]? = some sub := fun s hs =>
    ⟨_, List.getElem?_eq_getElem (hinv.targets c pc s hc hs)⟩
  cases pc with
  | publish ev => exact .inl (publish_enabled hc)
  | fanOut ev todo => exact .inl (fanOut_enabled hinv hc)
  | enqueueEntered ev s todo =>
    obtain ⟨sub, hs⟩ := hget s (List.mem_cons_self ..)
    refine .inl ⟨.enqueueCheck c, rfl, ?_⟩
    simp only [Bus.step, Bus.enqueueCheck, hc, hs]
    split <;> rfl
  | enqueueSelect ev s todo =>
    obtain ⟨sub, hs⟩ := hget s (List.mem_cons_self ..)
    exact enqueueSelect_enabled hc hs
  | enqueueExit ev s todo err =>
    obtain ⟨sub, hs⟩ := hget s (List.mem_cons_self ..)
    refine .inl ⟨.enqueueReturn c, rfl, ?_⟩
    cases err <;> simp [Bus.step, Bus.enqueueReturn, hc, hs]
  | _ => cases hev

end Publisher

/-- `PublishWithResult` is bounded: however the other calls, the consumers and the contexts
    move in between, it takes at most `4 * n + 2` steps of its own, where `n` is the number of
    subscribers in its snapshot; and at any time it has returned, or has a step to take, or
    waits under `Block` for a slot of a full queue with its context open. -/
theorem publish_bounded {config : Config} {log : List Obs} {w w' : Bus} {c : CallId} {ev : Event}
    {log' : List (Obs ⊕ Unit)} (h : (Bus.lts config).Reach Lts.Always log w)
    (hc : w.calls c = some (.publish ev))
    (hrun : ((Bus.lts config).counting fun a : Action => a.mover = some c).Steps Lts.Always
      w log' w') :
    Lts.ownSteps log' ≤ 4 * (snapshots (Lts.inner log') c).flatten.length + 2 ∧
    ((∃ r, w'.calls c = some (.returned r)) ∨ w'.CanMove c ∨ w'.AtFullQueue c) := by
  let rank (w : Bus) : Nat := ((w.calls c).map Pc.publishWork).getD 0
  have hbound := Lts.Reach.ownSteps_le
    (P := fun w => ∃ pc, w.calls c = some pc ∧ pc.Publishing) rank
    (fun os => 4 * (snapshots os c).flatten.length) rfl
    (fun log log' => by simp [Nat.mul_add]) ?_ h ⟨_, hc, .inl rfl⟩ hrun
  · obtain ⟨⟨pc, hpc, hpub⟩, hle⟩ := hbound
    have hstart : rank w = 2 := by simp [rank, hc, Pc.publishWork]
    refine ⟨by omega, ?_⟩
    rcases hpub with hev | ⟨r, rfl⟩
    · exact .inr (publisher_moves (registry_inv (h.trans hrun.of_observe)) hpc hev)
    · exact .inl ⟨r, hpc⟩
  · rintro log w a w' os hr ⟨pc, hpc, hpub⟩ hg hstep
    have hpanic : ∀ p, .panicked p ∉ os := fun p ho =>
      not_panicked (hr.next hg hstep) p (List.mem_append_right _ ho)
    rcases (step_effect hstep).cases_mover hpc with ⟨hother, hsame⟩ | ⟨pc', w₁, hown, hm, rfl⟩
    · refine ⟨⟨pc, hsame, hpub⟩, ?_⟩
      simp only [rank, hpc, hsame, if_neg hother]
      omega
    · obtain ⟨hpub', hwork⟩ := hm.publishWork hpub hpanic
      refine ⟨⟨pc', Bus.setPc_calls_self _ _ _, hpub'⟩, ?_⟩
      simp only [rank, hpc, Bus.setPc_calls_self, Option.map_some, Option.getD_some, if_pos hown]
      exact hwork

/-- A first event fills the queue of the only subscription, and a second one is published. -/
private def fullQueueRun : List Action :=
  Broker.subscribeRun 0 ++ Broker.publishRun 1 1 [0] ++ Broker.giveRun 1 ++
    [Action.publishLeave 1 [], .invoke 2 (.publishWithResult .background ⟨[2], [], [7], [], []⟩)]

/-- A publisher that waits for a slot has taken three of the six steps it may take. -/
theorem publish_bounded_full_queue :
    ∃ log w log' w', (Bus.lts ⟨1, 0, 0, .block⟩).Reach Lts.Always log w ∧
      w.calls 2 = some (.publish ⟨[2], [], [7], [], []⟩) ∧
      ((Bus.lts ⟨1, 0, 0, .block⟩).counting (fun a : Action => a.mover = some 2)).Steps Lts.Always
        w log' w' ∧
      Lts.ownSteps log' = 3 ∧ snapshots (Lts.inner log') 2 = [[0]] ∧
      Lts.ownSteps log' ≤ 4 * (snapshots (Lts.inner log') 2).flatten.length + 2 ∧
      ((∃ r, w'.calls 2 = some (.returned r)) ∨ w'.CanMove 2 ∨ w'.AtFullQueue 2) := by
  obtain ⟨log, w, hr, hpub, ⟨w', log'⟩, hrun, hsteps, hsnap⟩ :=
    Lts.reach_of_runWhere (M := Bus.lts ⟨1, 0, 0, .block⟩) (G := Lts.Always) rfl
      fullQueueRun
      (Q := fun r => r.1.calls 2 = some (.publish ⟨[2], [], [7], [], []⟩) ∧
        ∃ r' ∈ ((Bus.lts ⟨1, 0, 0, .block⟩).counting (fun a : Action => a.mover = some 2)).runWhere
          Lts.Always r.1 [.publishEnter 2 [0] [], .enqueueEnter 2, .enqueueCheck 2],
          Lts.ownSteps r'.2 = 3 ∧ snapshots (Lts.inner r'.2) 2 = [[0]])
      (by decide)
  have hmore := Lts.steps_of_runWhere _ _ _ _ hrun
  exact ⟨log, w, log', w', hr, hpub, hmore, hsteps, hsnap, publish_bounded hr hpub hmore⟩

/-! ## Closing -/

/-- The guard of runs in which only calls already in progress move: no consumer receives, no
    context ends and no call is made. -/
def InProgress (w : Bus) (a : Action) : Prop := ∃ d, a.mover = some d ∧ w.calls d ≠ none

/-- A closer inside `Do` stays inside until it finishes it. -/
private theorem Move.inside (hm : Move w c a pc pc' w₁ os) (hin : pc.inside = some p)
    (hs' : w₁.subs[p]? = some sub') (hrun : sub'.once = .running) (hpanic : ∀ p, .panicked p ∉ os) :
    pc'.inside = some p := by
  cases hm with
  | quiet hq =>
    cases hq with
    | @closeWait s drain rest => cases drain <;> exact hin
    | closeDiscardEmpty => exact hin
    | _ => cases hin
  | closeMark | closeDiscard | closeDiscardSpin => exact hin
  | closeMarkPanic | closeEventsPanic => exact absurd (List.mem_singleton.mpr rfl) (hpanic _)
  | closeEvents hs =>
    -- `Do` is finished now, not running
    cases hin
    rw [Bus.setSub_subs, List.getElem?_set_of_eq_some hs, Option.some.injEq] at hs'
    subst hs'
    cases hrun
  | _ => cases hin

/-- A move that finds `Do` running afterwards found it running, or is the entry. -/
private theorem Move.running (hm : Move w c a pc pc' w₁ os) (hs' : w₁.subs[p]? = some sub')
    (hrun : sub'.once = .running) :
    pc'.inside = some p ∨ ∃ sub, w.subs[p]? = some sub ∧ sub.once = .running := by
  -- only `closeOnce` and `closeEvents` touch `once`, and a new subscription is fresh
  have hset : ∀ {s : SubPtr} {sub₀ sub₁ : Subscription}, (w.subs.set s sub₁)[p]? = some sub' →
      w.subs[s]? = some sub₀ → sub₁.once = sub₀.once →
      ∃ sub, w.subs[p]? = some sub ∧ sub.once = .running := by
    intro s sub₀ sub₁ hset hs honce
    rcases List.getElem?_set_cases hset with ⟨rfl, rfl⟩ | ⟨-, hold⟩
    · exact ⟨sub₀, hs, honce.symm.trans hrun⟩
    · exact ⟨sub', hold, hrun⟩
  cases hm with
  | enqueueEnter hs | enqueueSend hs | enqueueReturn hs | enqueueFail hs | closeMark hs
  | closeDiscard hs => exact .inr (hset hs' hs rfl)
  | closeOnce hs =>
    rcases List.getElem?_set_cases hs' with ⟨rfl, -⟩ | ⟨-, hold⟩
    · exact .inl rfl
    · exact .inr ⟨sub', hold, hrun⟩
  | closeEvents hs =>
    rcases List.getElem?_set_cases hs' with ⟨rfl, rfl⟩ | ⟨-, hold⟩
    · cases hrun
    · exact .inr ⟨sub', hold, hrun⟩
  | subscribe =>
    rw [List.getElem?_append] at hs'
    split at hs'
    · exact .inr ⟨sub', hs', hrun⟩
    · obtain rfl := List.mem_singleton.mp (List.mem_of_getElem? hs')
      cases hrun
  | _ => exact .inr ⟨sub', hs', hrun⟩

/-- While `s.once.Do` runs, some call is inside it. -/
theorem running_inside (h : (Bus.lts config).Reach Lts.Always log w) (hs : w.subs[p]? = some sub)
    (hrun : sub.once = .running) : ∃ c, w.Inside c p := by
  refine h.induct_reach (P := fun _ w => ∀ sub, w.subs[p]? = some sub → sub.once = .running →
    ∃ c, w.Inside c p) ?_ ?_ sub hs hrun
  · rintro _ rfl
    simp [new]
  intro log w a w' os hr ih hg hstep sub' hs' hrun'
  have hpanic : ∀ p, .panicked p ∉ os := fun p ho =>
    not_panicked (hr.next hg hstep) p (List.mem_append_right _ ho)
  cases step_effect hstep with
  | @call d _ pc pc' w₁ _ hpc hm =>
    -- the closer inside moves on, another call moves, or this move is the entry
    rcases hm.running hs' hrun' with hin | ⟨sub, hs, hrun⟩
    · exact ⟨d, pc', Bus.setPc_calls_self _ _ _, hin⟩
    obtain ⟨c, pc₀, hpc₀, hin⟩ := ih sub hs hrun
    by_cases hc : c = d
    · subst hc
      rw [hpc, Option.some.injEq] at hpc₀
      subst hpc₀
      exact ⟨c, pc', Bus.setPc_calls_self _ _ _, hm.inside hin hs' hrun' hpanic⟩
    · exact ⟨c, pc₀, by rw [Bus.setPc_calls_of_ne _ _ hc, hm.calls_eq, hpc₀], hin⟩
  | @invoke d op hnone =>
    obtain ⟨c, pc₀, hpc₀, hin⟩ := ih sub' hs' hrun'
    have hc : c ≠ d := by
      rintro rfl
      simp [hnone] at hpc₀
    exact ⟨c, pc₀, by simpa [hc] using hpc₀, hin⟩
  | cancel | receiveEnd => exact ih sub' hs' hrun'
  | receive hs₀ =>
    rcases List.getElem?_set_cases hs' with ⟨rfl, rfl⟩ | ⟨-, hold⟩
    · exact ih _ hs₀ hrun'
    · exact ih sub' hold hrun'

/-- Calls in progress lead from `w` to `w'`, and none but `d` and publishers in `enqueue` have
    moved. -/
def Bus.Leads (config : Config) (d : CallId) (w w' : Bus) : Prop :=
  (∃ log', (Bus.lts config).Steps InProgress w log' w') ∧
    ∀ c pc, c ≠ d → w.calls c = some pc → pc.enqueuing = none → w'.calls c = some pc

section Leads

variable {w'' : Bus} {d : CallId} {rest : List SubPtr} {drain : Bool}

theorem Bus.Leads.trans (h : Bus.Leads config d w w') (h' : Bus.Leads config d w' w'') :
    Bus.Leads config d w w'' := by
  obtain ⟨⟨log₁, hsteps⟩, hkeep⟩ := h
  obtain ⟨⟨log₂, hsteps'⟩, hkeep'⟩ := h'
  refine ⟨⟨_, hsteps.trans hsteps'⟩, fun c pc hc hpc hout => ?_⟩
  exact hkeep' c pc hc (hkeep c pc hc hpc hout) hout

/-- What is reachable stays so. -/
theorem Bus.Leads.reach (h : Bus.Leads config d w w')
    (hr : (Bus.lts config).Reach Lts.Always log w) :
    ∃ log', (Bus.lts config).Reach Lts.Always log' w' := by
  obtain ⟨⟨log', hsteps⟩, -⟩ := h
  exact ⟨_, hr.trans (hsteps.mono fun _ _ _ => trivial)⟩

/-- A step of `d`. -/
theorem Bus.Leads.single (hpc : w.calls d = some pc) (hmover : a.mover = some d)
    (hcalls : w₁.calls = w.calls) (hstep : w.step a = some (w₁.setPc d pc', os)) :
    Bus.Leads config d w (w₁.setPc d pc') := by
  refine ⟨⟨os, .single (a := a) ⟨d, hmover, by simp [hpc]⟩ hstep⟩, fun c pc hc hcalls' _ => ?_⟩
  rw [Bus.setPc_calls_of_ne _ _ hc, hcalls, hcalls']

/-- A run of one call leaves the others where they are. -/
theorem calls_of_onlyBy (h : (Bus.lts config).Steps (OnlyBy d) w log' w') (hc : c ≠ d) :
    w'.calls c = w.calls c := by
  refine h.stable (P := fun w' => w'.calls c = w.calls c) rfl fun w₁ a w₂ os ih hg hstep => ?_
  have hne : a.mover ≠ some c := fun heq => hc (Option.some.inj (heq.symm.trans hg))
  exact ((step_effect hstep).calls_of_mover hne).trans ih

/-- A run of a publisher in `enqueue`. -/
theorem Bus.Leads.of_onlyBy {e : CallId} (h : (Bus.lts config).Steps (OnlyBy e) w log' w')
    (hpc : w.calls e = some pc) (henq : pc.enqueuing ≠ none) : Bus.Leads config d w w' := by
  constructor
  · refine ⟨log', h.strengthen (P := fun w => w.calls e ≠ none) (by simp [hpc]) ?_ ?_⟩
    · intro w a w' os hin _ hstep
      obtain ⟨pc, hpc⟩ := Option.ne_none_iff_exists'.mp hin
      rcases (step_effect hstep).cases_mover hpc with ⟨-, hsame⟩ | ⟨pc', w₁, -, -, rfl⟩
      · simp [hsame]
      · simp
    · exact fun w a hin hg => ⟨e, hg, hin⟩
  · intro c pc' hc hcalls hout
    have hne : c ≠ e := by
      rintro rfl
      rw [hpc, Option.some.injEq] at hcalls
      subst hcalls
      exact henq hout
    exact (calls_of_onlyBy h hne).trans hcalls

/-- What a call closes exists. -/
private theorem closing_exists (h : (Bus.lts config).Reach Lts.Always log w)
    (hd : w.calls d = some pc) (hp : p ∈ pc.closing) : ∃ sub, w.subs[p]? = some sub :=
  ⟨_, List.getElem?_eq_getElem ((registry_inv h).closing d pc p hd hp).1⟩

/-- At `s.wg.Wait()` the publishers in `enqueue` get out one after the other. -/
theorem closeWait_leads (h : (Bus.lts config).Reach Lts.Always log w)
    (hd : w.calls d = some (.closeWait p drain rest)) :
    ∃ w' sub', Bus.Leads config d w w' ∧ w'.calls d = some (.closeWait p drain rest) ∧
      w'.subs[p]? = some sub' ∧ sub'.wg = 0 := by
  obtain ⟨sub, hs⟩ := closing_exists h hd (List.mem_cons_self ..)
  -- induction on the wait group
  induction hn : sub.wg generalizing log w sub with
  | zero => exact ⟨w, sub, ⟨⟨[], .refl _⟩, fun _ _ _ hpc _ => hpc⟩, hd, hs, hn⟩
  | succ n ih =>
    have hinv := sub_inv h hs
    have hclosed : sub.closed = true := (hinv.stage d _ hd rfl).2
    obtain ⟨e, pc, hpc, henq⟩ : ∃ e, w.InEnqueue e p := by
      obtain ⟨F, hcard, hmem⟩ := hinv.wg
      obtain ⟨e, he⟩ := Finset.card_pos.mp (show 0 < F.card by omega)
      exact ⟨e, (hmem e).mp he⟩
    have hne : d ≠ e := by
      rintro rfl
      rw [hd, Option.some.injEq] at hpc
      subst hpc
      cases henq
    obtain ⟨ev, todo, hon⟩ : ∃ ev todo, pc.enqueueOn p = some (ev, todo) := by
      cases pc with
      | enqueueEntered ev s todo | enqueueSelect ev s todo | enqueueExit ev s todo err =>
        exact ⟨ev, todo, if_pos (Option.some.inj henq)⟩
      | _ => cases henq
    obtain ⟨log₁, w₁, hsteps, hret⟩ : ∃ log₁ w₁,
        (Bus.lts config).Steps (OnlyBy e) w log₁ w₁ ∧ w₁.EnqueueReturned e ev todo :=
      enqueue_returns hs (hinv.done.trans hclosed) hclosed hpc hon
    have hlead : Bus.Leads config d w w₁ := .of_onlyBy hsteps hpc (by simp [henq])
    obtain ⟨log₂, hr₁⟩ := hlead.reach h
    have hd₁ : w₁.calls d = some (.closeWait p drain rest) :=
      (calls_of_onlyBy hsteps hne).trans hd
    obtain ⟨sub₁, hs₁⟩ := closing_exists hr₁ hd₁ (List.mem_cons_self ..)
    -- the publisher that got out is counted no more, the others are
    have hwg : Counts (fun c => w₁.InEnqueue c p) (sub.wg - 1) := by
      refine hinv.wg.leave (c := e) ⟨pc, hpc, henq⟩ fun c => ?_
      by_cases hc : c = e
      · subst hc
        rcases hret with hret | ⟨err, hret⟩ <;> simp [Bus.InEnqueue, hret, Pc.enqueuing]
      · simp [Bus.InEnqueue, calls_of_onlyBy hsteps hc, hc]
    have hn₁ : sub₁.wg = n := ((sub_inv hr₁ hs₁).wg.unique hwg).trans (by omega)
    obtain ⟨w', sub', hlead', hd', hs', hzero⟩ := ih hr₁ hd₁ sub₁ hs₁ hn₁
    exact ⟨w', sub', hlead.trans hlead', hd', hs', hzero⟩

/-- The loop that empties the queue comes to its end. -/
theorem closeDiscard_leads (h : (Bus.lts config).Reach Lts.Always log w)
    (hd : w.calls d = some (.closeDiscard p rest)) :
    ∃ w', Bus.Leads config d w w' ∧ w'.calls d = some (.closeEvents p rest) := by
  obtain ⟨sub, hs⟩ := closing_exists h hd (List.mem_cons_self ..)
  -- induction on the queue
  induction hn : sub.events.buf generalizing log w sub with
  | nil =>
    have hopen : sub.events.closed = false := by
      have hrun := ((sub_inv h hs).stage d _ hd rfl).1
      cases hcl : sub.events.closed with
      | false => rfl
      | true =>
        rw [(sub_inv h hs).ended.mp hcl] at hrun
        cases hrun
    have hblocked := (Chan.receive_blocked_iff sub.events).mpr ⟨hn, hopen⟩
    have hstep : w.step (.closeDiscard d) = some (w.goto d (.closeEvents p rest)) := by
      simp [Bus.step, Bus.closeDiscard, hd, hs, hblocked]
    exact ⟨_, .single hd rfl rfl hstep, Bus.setPc_calls_self _ _ _⟩
  | cons x xs ih =>
    obtain ⟨y, events, hrecv⟩ := Chan.exists_receive_some sub.events (by simp [hn])
    obtain ⟨hbuf, -, -⟩ := Chan.receive_some hrecv
    have hstep : w.step (.closeDiscard d) = some ((w.setSub p { sub with events := events }).setPc d
        (.closeDiscard p rest), [.discarded p y]) := by
      simp [Bus.step, Bus.closeDiscard, hd, hs, hrecv]
    have hlead : Bus.Leads config d w _ := .single hd rfl (Bus.setSub_calls _ _ _) hstep
    obtain ⟨log₁, hr₁⟩ := hlead.reach h
    have hs₁ :
        ((w.setSub p { sub with events := events }).setPc d (.closeDiscard p rest)).subs[p]? =
          some { sub with events := events } := List.getElem?_set_of_eq_some hs
    rw [hn, List.cons.injEq] at hbuf
    obtain ⟨w', hlead', hd'⟩ := ih hr₁ (Bus.setPc_calls_self _ _ _) _ hs₁ hbuf.2.symm
    exact ⟨w', hlead.trans hlead', hd'⟩

/-- Call `d` can be brought to leave `Do` of `p`, with `rest` to close afterwards. -/
def Bus.Finishes (config : Config) (d : CallId) (p : SubPtr) (rest : List SubPtr) (w : Bus) :
    Prop :=
  ∃ w' sub', Bus.Leads config d w w' ∧ w'.calls d = some (.closeNext rest) ∧
    w'.subs[p]? = some sub' ∧ sub'.once = .finished

theorem Bus.Leads.finishes (h : Bus.Leads config d w w') (h' : w'.Finishes config d p rest) :
    w.Finishes config d p rest := by
  obtain ⟨w'', sub'', hlead, hrest⟩ := h'
  exact ⟨w'', sub'', h.trans hlead, hrest⟩

private theorem closeEvents_finishes (h : (Bus.lts config).Reach Lts.Always log w)
    (hd : w.calls d = some (.closeEvents p rest)) : w.Finishes config d p rest := by
  obtain ⟨sub, hs⟩ := closing_exists h hd (List.mem_cons_self ..)
  have hrun := ((sub_inv h hs).stage d _ hd rfl).1
  have hopen : sub.events.closed ≠ true := by
    intro hcl
    rw [(sub_inv h hs).ended.mp hcl] at hrun
    cases hrun
  obtain ⟨events, hclose⟩ : ∃ events, sub.events.close = .done events := ⟨_, if_neg hopen⟩
  have hstep : w.step (.closeEvents d) =
      some ((w.setSub p { sub with events := events, once := .finished }).setPc d
        (.closeNext rest), .closedEvents p :: (Pc.closeNext rest).report d) := by
    simp [Bus.step, Bus.closeEvents, hd, hs, hclose, Bus.goto]
  exact ⟨_, _, .single hd rfl (Bus.setSub_calls _ _ _) hstep, Bus.setPc_calls_self _ _ _,
    List.getElem?_set_of_eq_some hs, rfl⟩

private theorem closeDiscard_finishes (h : (Bus.lts config).Reach Lts.Always log w)
    (hd : w.calls d = some (.closeDiscard p rest)) : w.Finishes config d p rest := by
  obtain ⟨w₁, hlead, hd₁⟩ := closeDiscard_leads h hd
  obtain ⟨log₁, hr₁⟩ := hlead.reach h
  exact hlead.finishes (closeEvents_finishes hr₁ hd₁)

private theorem closeWait_finishes (h : (Bus.lts config).Reach Lts.Always log w)
    (hd : w.calls d = some (.closeWait p drain rest)) : w.Finishes config d p rest := by
  obtain ⟨w₁, sub₁, hlead, hd₁, hs₁, hzero⟩ := closeWait_leads h hd
  have hstep : w₁.step (.closeWait d) =
      some (w₁.goto d (if drain then .closeEvents p rest else .closeDiscard p rest)) := by
    simp [Bus.step, Bus.closeWait, hd₁, hs₁, hzero]
  have hlead₂ := hlead.trans (.single hd₁ rfl rfl hstep)
  obtain ⟨log₂, hr₂⟩ := hlead₂.reach h
  refine hlead₂.finishes ?_
  cases drain with
  | true => exact closeEvents_finishes hr₂ (Bus.setPc_calls_self _ _ _)
  | false => exact closeDiscard_finishes hr₂ (Bus.setPc_calls_self _ _ _)

private theorem closeMark_finishes (h : (Bus.lts config).Reach Lts.Always log w)
    (hd : w.calls d = some (.closeMark p drain rest)) : w.Finishes config d p rest := by
  obtain ⟨sub, hs⟩ := closing_exists h hd (List.mem_cons_self ..)
  have hdone : sub.done = false :=
    (sub_inv h hs).done.trans ((sub_inv h hs).stage d _ hd rfl).2
  have hstep : w.step (.closeMark d) =
      some ((w.setSub p { sub with closed := true, done := true }).setPc d
        (.closeWait p drain rest), [.closedDone p]) := by
    simp [Bus.step, Bus.closeMark, hd, hs, hdone]
  have hlead : Bus.Leads config d w _ := .single hd rfl (Bus.setSub_calls _ _ _) hstep
  obtain ⟨log₁, hr₁⟩ := hlead.reach h
  exact hlead.finishes (closeWait_finishes hr₁ (Bus.setPc_calls_self _ _ _))

/-- A closer inside `Do` can leave it. -/
theorem inside_finishes (h : (Bus.lts config).Reach Lts.Always log w) (hd : w.calls d = some pc)
    (hin : pc.inside = some p) : w.Finishes config d p pc.closing.tail := by
  cases pc with
  | closeMark s drain rest =>
    cases hin
    exact closeMark_finishes h hd
  | closeWait s drain rest =>
    cases hin
    exact closeWait_finishes h hd
  | closeDiscard s rest =>
    cases hin
    exact closeDiscard_finishes h hd
  | closeEvents s rest =>
    cases hin
    exact closeEvents_finishes h hd
  | _ => cases hin

/-- At `s.once.Do`: enter it, or wait until the call inside has left it. -/
theorem closeOnce_leads (h : (Bus.lts config).Reach Lts.Always log w)
    (hc : w.calls c = some (.closeOnce p drain rest)) :
    ∃ log' w', (Bus.lts config).Steps InProgress w log' w' ∧
      w'.calls c = some (.closeNext rest) := by
  -- once `Do` is finished, one step passes it
  have hpass : ∀ {w : Bus} {sub : Subscription}, w.calls c = some (.closeOnce p drain rest) →
      w.subs[p]? = some sub → sub.once = .finished →
      Bus.Leads config c w (w.setPc c (.closeNext rest)) := by
    intro w sub hc hs hfin
    have hstep : w.step (.closeOnce c) = some (w.goto c (.closeNext rest)) := by
      simp [Bus.step, Bus.closeOnce, hc, hs, hfin]
    exact .single hc rfl rfl hstep
  obtain ⟨sub, hs⟩ := closing_exists h hc (List.mem_cons_self ..)
  cases honce : sub.once with
  | fresh =>
    have hstep : w.step (.closeOnce c) =
        some ((w.setSub p { sub with once := .running }).goto c (.closeMark p drain rest)) := by
      simp [Bus.step, Bus.closeOnce, hc, hs, honce]
    have hlead : Bus.Leads config c w _ := .single hc rfl (Bus.setSub_calls _ _ _) hstep
    obtain ⟨log₁, hr₁⟩ := hlead.reach h
    obtain ⟨w', -, hlead', hc', -⟩ :=
      hlead.finishes (closeMark_finishes hr₁ (Bus.setPc_calls_self _ _ _))
    obtain ⟨log', hsteps⟩ := hlead'.1
    exact ⟨log', w', hsteps, hc'⟩
  | running =>
    obtain ⟨d, pc, hd, hin⟩ := running_inside h hs honce
    have hne : c ≠ d := by
      rintro rfl
      rw [hc, Option.some.injEq] at hd
      subst hd
      cases hin
    obtain ⟨w₁, sub₁, ⟨⟨log₁, hsteps⟩, hkeep⟩, -, hs₁, hfin⟩ := inside_finishes h hd hin
    obtain ⟨log₂, hlast⟩ := (hpass (hkeep c _ hne hc rfl) hs₁ hfin).1
    exact ⟨_, _, hsteps.trans hlast, Bus.setPc_calls_self _ _ _⟩
  | finished =>
    obtain ⟨log', hsteps⟩ := (hpass hc hs honce).1
    exact ⟨log', _, hsteps, Bus.setPc_calls_self _ _ _⟩

/-- The calls in progress can bring call `c` to return. -/
def Bus.Completes (config : Config) (c : CallId) (w : Bus) : Prop :=
  ∃ log' w', (Bus.lts config).Steps InProgress w log' w' ∧ w'.calls c = some (.returned .ok)

/-- It is enough to get to a state from which the call completes. -/
theorem Bus.Completes.of_steps (h : (Bus.lts config).Reach Lts.Always log w)
    (hsteps : (Bus.lts config).Steps InProgress w log' w')
    (hrest : ∀ log, (Bus.lts config).Reach Lts.Always log w' → w'.Completes config c) :
    w.Completes config c := by
  obtain ⟨log'', w'', hsteps', hret⟩ := hrest _ (h.trans (hsteps.mono fun _ _ _ => trivial))
  exact ⟨_, w'', hsteps.trans hsteps', hret⟩

/-- A call with a list of subscriptions to close comes to its end. -/
theorem closeNext_completes (h : (Bus.lts config).Reach Lts.Always log w)
    (hc : w.calls c = some (.closeNext rest)) : w.Completes config c := by
  induction rest generalizing log w with
  | nil => exact ⟨[], w, .refl _, hc⟩
  | cons s rest ih =>
    obtain ⟨log₁, w₁, hsteps, hc₁⟩ := closeOnce_leads h hc
    exact .of_steps h hsteps fun log₂ hr₁ => ih hr₁ hc₁

private theorem closeOnce_completes (h : (Bus.lts config).Reach Lts.Always log w)
    (hc : w.calls c = some (.closeOnce p drain rest)) : w.Completes config c := by
  obtain ⟨log₁, w₁, hsteps, hc₁⟩ := closeOnce_leads h hc
  exact .of_steps h hsteps fun log₂ hr₁ => closeNext_completes hr₁ hc₁

private theorem inside_completes (h : (Bus.lts config).Reach Lts.Always log w)
    (hc : w.calls c = some pc) (hin : pc.inside = some p) : w.Completes config c := by
  obtain ⟨w₁, -, ⟨⟨log₁, hsteps⟩, -⟩, hc₁, -⟩ := inside_finishes h hc hin
  exact .of_steps h hsteps fun log₂ hr₁ => closeNext_completes hr₁ hc₁

/-- `Subscription.Close` takes the subscription out of the registry and goes to `Do`. -/
private theorem closeSubscription_completes (h : (Bus.lts config).Reach Lts.Always log w)
    (hc : w.calls c = some (.closeSubscription p)) (hp : p < w.subs.length) :
    w.Completes config c := by
  have hstep : w.step (.closeDeregister c) =
      some ((w.setBroker (w.broker.deregister (w.subs[p]).topic (w.subs[p]).id)).goto c
        (.closeOnce p true [])) := by
    simp [Bus.step, Bus.closeDeregister, hc, hp]
  exact .of_steps h (.single (a := .closeDeregister c) ⟨c, rfl, by simp [hc]⟩ hstep)
    fun log₁ hr₁ => closeOnce_completes hr₁ (Bus.setPc_calls_self _ _ _)

/-- `Broker.Close` returns at once if the broker is closed, and closes what is registered
    otherwise. -/
private theorem closeBroker_completes (h : (Bus.lts config).Reach Lts.Always log w)
    (hc : w.calls c = some .closeBroker) : w.Completes config c := by
  by_cases hclosed : w.broker.closed
  · have hstep : w.step (.closeBroker c []) = some (w.goto c (.returned .ok)) := by
      simp [Bus.step, Bus.closeBroker, hc, hclosed]
    exact ⟨_, _, .single (a := .closeBroker c []) ⟨c, rfl, by simp [hc]⟩ hstep,
      Bus.setPc_calls_self _ _ _⟩
  · have hstep : w.step (.closeBroker c w.broker.allRegistered) =
        some ((w.setBroker { w.broker with closed := true, topics := ∅ }).goto c
          (.closeNext w.broker.allRegistered)) := by
      simp [Bus.step, Bus.closeBroker, hc, hclosed]
    exact .of_steps h
      (.single (a := .closeBroker c w.broker.allRegistered) ⟨c, rfl, by simp [hc]⟩ hstep)
      fun log₁ hr₁ => closeNext_completes hr₁ (Bus.setPc_calls_self _ _ _)

end Leads

/-- A call that closes subscriptions, of which `Close` has been asked for one that exists. -/
def Bus.Closes (w : Bus) : Pc → Prop
  | .closeSubscription s => s < w.subs.length
  | .closeBroker => True
  | pc => pc.closing ≠ []

/-- `Close` is never held up: from every reachable state in which a call is closing
    subscriptions there is a continuation in which only calls already in progress move, no
    consumer receives and no context ends, and at the end of which the call has returned. -/
theorem close_completes {config : Config} {log : List Obs} {w : Bus} {c : CallId} {pc : Pc}
    (h : (Bus.lts config).Reach Lts.Always log w) (hc : w.calls c = some pc)
    (hcloses : w.Closes pc) :
    ∃ log' w', (Bus.lts config).Steps InProgress w log' w' ∧
      w'.calls c = some (.returned .ok) := by
  cases pc with
  | closeSubscription s => exact closeSubscription_completes h hc hcloses
  | closeBroker => exact closeBroker_completes h hc
  | closeOnce s drain rest => exact closeOnce_completes h hc
  | closeMark s drain rest | closeWait s drain rest => exact inside_completes h hc rfl
  | closeDiscard s rest | closeEvents s rest => exact inside_completes h hc rfl
  | _ => exact absurd rfl hcloses

/-- Two calls close one subscription while a publisher waits for a slot of its full queue:
    the second one is behind the first, and that one is behind the publisher. -/
theorem close_completes_behind_publisher :
    ∃ log w, (Bus.lts ⟨1, 0, 0, .block⟩).Reach Lts.Always log w ∧
      w.calls 2 = some (.enqueueSelect ⟨[2], [], [7], [], []⟩ 0 []) ∧
      w.calls 3 = some (.closeWait 0 true []) ∧ w.calls 4 = some (.closeOnce 0 true []) ∧
      w.step (.closeWait 3) = none ∧ w.step (.closeOnce 4) = none ∧
      ∃ log' w', (Bus.lts ⟨1, 0, 0, .block⟩).Steps InProgress w log' w' ∧
        w'.calls 4 = some (.returned .ok) := by
  obtain ⟨log, w, hr, hpub, hfirst, hsecond, hwait, honce⟩ :=
    Lts.reach_of_runWhere (M := Bus.lts ⟨1, 0, 0, .block⟩) (G := Lts.Always) rfl
      (fullQueueRun ++ [Action.publishEnter 2 [0] [], .enqueueEnter 2, .enqueueCheck 2,
        .invoke 3 (.closeSubscription 0), .closeDeregister 3, .closeOnce 3, .closeMark 3,
        .invoke 4 (.closeSubscription 0), .closeDeregister 4])
      (Q := fun r => r.1.calls 2 = some (.enqueueSelect ⟨[2], [], [7], [], []⟩ 0 []) ∧
        r.1.calls 3 = some (.closeWait 0 true []) ∧ r.1.calls 4 = some (.closeOnce 0 true []) ∧
        (r.1.step (.closeWait 3)).isNone ∧ (r.1.step (.closeOnce 4)).isNone)
      (by decide)
  refine ⟨log, w, hr, hpub, hfirst, hsecond, Option.isNone_iff_eq_none.mp hwait,
    Option.isNone_iff_eq_none.mp honce, ?_⟩
  exact close_completes hr hsecond (List.cons_ne_nil _ _)

end EventBus
