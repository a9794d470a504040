import EventBus.ForStd.Window
import EventBus.Spec.BrokerEnqueue
import EventBus.Spec.BrokerMemory

/-!
# Calls made one after another

Runs in which no two calls of the broker overlap. Even there two promises fail. A publish
that fails in the middle of its fan-out has filled some queues and remembers nothing, so a
retry fills them again. And `remember` evicts whatever key the map iteration yields first,
which need not be the oldest one.

Retries are safe where no publish is retried that had reached a subscription which is still
registered, and the remembered keys are the most recent ones where the iteration yields the
oldest.

## Key results

- `running_unique`: at most one call is running
- `retry_safe`, `retry_duplicates`: retries after a failed publish
- `window_inv`: the remembered keys are those accepted last, if the oldest one is evicted
- `deduplication_window`, `recent_key_evicted`: publishing a recent key again
-/

namespace EventBus

/-! ## Sequential runs -/

/-- No call of the broker's API is running. -/
def Bus.Idle (w : Bus) : Prop := ∀ c pc, w.calls c = some pc → ∃ r, pc = .returned r

/-- Calls are made one after another. -/
def Sequentially (w : Bus) (a : Action) : Prop := ∀ c op, a = .invoke c op → w.Idle

/-- Call `c` has been made and has not returned. -/
def Bus.Running (w : Bus) (c : CallId) : Prop :=
  ∃ pc, w.calls c = some pc ∧ ∀ r, pc ≠ .returned r

section Sequential

variable {config : Config} {G : Bus → Action → Prop} {log os : List Obs} {w w' w₁ : Bus}
  {a : Action} {c d : CallId} {pc pc' : Pc} {ev : Event}

theorem Bus.InFlight.running (h : w.InFlight c ev) : w.Running c := by
  obtain ⟨pc, hpc, hev⟩ := h
  refine ⟨pc, hpc, ?_⟩
  rintro r rfl
  cases hev

/-- A call that is running after a step was so before, or has just been made. -/
theorem Effect.running (h : Effect w a w' os) (hc : w'.Running c) :
    w.Running c ∨ ∃ op, a = .invoke c op := by
  obtain ⟨pc, hpc, hrun⟩ := hc
  rcases h.cases_call c with ⟨hsame, -⟩ | ⟨op, -, -, rfl⟩ | ⟨pc₀, pc', w₁, hpc₀, hm, -⟩
  · exact .inl ⟨pc, hsame ▸ hpc, hrun⟩
  · exact .inr ⟨op, h.invoked_mem (List.mem_singleton_self _)⟩
  · exact .inl ⟨pc₀, hpc₀, fun _ => hm.not_returned⟩

theorem running_unique_step (h : Effect w a w' os) (hseq : Sequentially w a)
    (hinv : ∀ c d, w.Running c → w.Running d → c = d) (c d : CallId) (hc : w'.Running c)
    (hd : w'.Running d) : c = d := by
  -- a call that is made finds no other one running
  have hidle : ∀ c d op, a = .invoke c op → ¬w.Running d := by
    rintro c d op ha ⟨pc, hpc, hrun⟩
    obtain ⟨r, hr⟩ := hseq c op ha d pc hpc
    exact hrun r hr
  rcases h.running hc with hc | ⟨op, ha⟩ <;> rcases h.running hd with hd | ⟨op', ha'⟩
  · exact hinv c d hc hd
  · exact absurd hc (hidle d c op' ha')
  · exact absurd hd (hidle c d op ha)
  · rw [ha] at ha'
    exact (Action.invoke.inj ha').1

/-- At most one call is running. -/
theorem running_unique (h : (Bus.lts config).Reach G log w)
    (hG : ∀ w a, G w a → Sequentially w a) (hc : w.Running c) (hd : w.Running d) : c = d := by
  have hall : ∀ c d, w.Running c → w.Running d → c = d := by
    refine h.invariant (P := fun _ w => ∀ c d, w.Running c → w.Running d → c = d) ?_ ?_
    · rintro _ rfl c d ⟨pc, hpc, -⟩
      cases hpc
    · intro log w a w' os ih hg hstep
      exact running_unique_step (step_effect hstep) (hG w a hg) ih
  exact hall c d hc hd

/-- Calls made one after another do not race. -/
theorem noRace_of_sequentially (h : (Bus.lts config).Reach G log w)
    (hG : ∀ w a, G w a → Sequentially w a) : (Bus.lts config).Reach NoRace log w := by
  obtain ⟨w₀, hinit, hsteps⟩ := h
  refine ⟨w₀, hinit, hsteps.strengthen
    (P := fun w => ∀ c d, w.Running c → w.Running d → c = d) ?_ ?_ ?_⟩
  · obtain rfl : w₀ = new config := hinit
    rintro c d ⟨pc, hpc, -⟩
    cases hpc
  · intro w a w' os ih hg hstep
    exact running_unique_step (step_effect hstep) (hG w a hg) ih
  · intro w a ih _ c order oldest ev _ hpc _ d ev' hfl
    obtain rfl := ih c d ⟨_, hpc, by simp⟩ hfl.running
    obtain ⟨pc, hpc', hev⟩ := hfl
    rw [hpc] at hpc'
    cases hpc'
    cases hev

/-- A step reports nothing of a call that has returned. -/
theorem Effect.returned_frozen {r : Ret} (h : Effect w a w' os) (hlog : LogInv log w)
    (hret : .returned c r ∈ log) : ∀ o ∈ os, o.actor ≠ some c := by
  have hpc := (hlog.returned c r).mp hret
  rcases h.cases_call c with ⟨-, hnot⟩ | ⟨op, hnone, -, -⟩ | ⟨pc, pc', w₁, hpc₀, hm, -⟩
  · exact hnot
  · rw [hnone] at hpc
    cases hpc
  · rw [hpc] at hpc₀
    exact absurd (Option.some.inj hpc₀).symm hm.not_returned

/-! ## Retries -/

/-- A retry comes after failed publishes that have not reached any subscription it finds: when
    a call enters, no call with its topic and key has failed that had sent its event to a
    subscription which is now registered. -/
def RetriesUnsent (s : Bus × List Obs) (a : Action) : Prop :=
  ∀ c order oldest ev, a = .publishEnter c order oldest → s.1.calls c = some (.publish ev) →
    idempotencyKey ev ≠ [] → ∀ d err, .returned d (.failed err) ∈ s.2 →
      PublishedKey s.2 ev.topic (idempotencyKey ev) d →
      ∀ p ∈ s.1.broker.registered ev.topic, p ∉ directs s.2 d

/-- What a call in flight has before it: it went on from what it had, or it has just copied
    the subscribers. -/
theorem Move.inFlight_targets (h : Move w c a pc pc' w₁ os) (hev : pc'.inFlight = some ev) :
    (pc.inFlight = some ev ∧ ∀ p ∈ pc'.targets, p ∈ pc.targets) ∨
      (pc = .publish ev ∧ (∃ order oldest, a = .publishEnter c order oldest) ∧
        ∀ p ∈ pc'.targets, p ∈ w.broker.registered ev.topic) := by
  cases h with
  | quiet hq =>
    cases hq with
    | enqueueCheckDone | enqueueCheckOpen | enqueueCtx | enqueueDone | enqueueFull =>
      exact .inl ⟨hev, fun _ hp => hp⟩
    | @closeOnceAfter _ _ rest => cases rest <;> exact nomatch hev
    | @closeWait _ drain => cases drain <;> exact nomatch hev
    | _ => cases hev
  | publishSnapshot _ _ _ hperm =>
    cases hev
    exact .inr ⟨rfl, ⟨_, _, rfl⟩, fun p hp => hperm.mem_iff.mp hp⟩
  | enqueueEnter | enqueueSend => exact .inl ⟨hev, fun _ hp => hp⟩
  | enqueueReturn => exact .inl ⟨hev, fun _ hp => List.mem_cons_of_mem _ hp⟩
  | @closeBroker order => cases order <;> exact nomatch hev
  | @closeEvents _ rest => cases rest <;> exact nomatch hev
  | _ => cases hev

/-- No call in flight has a subscription before it that a failed call with its key has
    reached. -/
def Unsent (log : List Obs) (w : Bus) : Prop :=
  ∀ c pc ev, w.calls c = some pc → pc.inFlight = some ev →
    idempotencyKey ev ≠ [] → ∀ d err, .returned d (.failed err) ∈ log →
      PublishedKey log ev.topic (idempotencyKey ev) d → ∀ p ∈ pc.targets, p ∉ directs log d

theorem unsent_step (h : Effect w a w' os) (hlog : LogInv log w)
    (halone : ∀ c d, w.Running c → w.Running d → c = d) (hg : RetriesUnsent (w, log) a)
    (hinv : Unsent log w) : Unsent (log ++ os) w' := by
  intro c pc ev hpc hev hne d err hret hkey p hp
  -- nobody fails while `c` is in flight
  have hold : .returned d (.failed err) ∈ log := by
    refine (List.mem_append.mp hret).resolve_right fun hnew => ?_
    rcases h.cases_call d with ⟨-, hnot⟩ | ⟨op, -, -, rfl⟩ | ⟨pcd, pcd', w₁, hpcd, hm, rfl⟩
    · exact hnot _ hnew rfl
    · simp at hnew
    · obtain rfl := hm.returned_mem.mp hnew
      by_cases hcd : c = d
      · subst hcd
        rw [Bus.setPc_calls_self] at hpc
        cases hpc
        cases hev
      · rw [Bus.setPc_calls_of_ne _ _ hcd, hm.calls_eq] at hpc
        have hrun : w.InFlight c ev := ⟨pc, hpc, hev⟩
        exact hcd (halone c d hrun.running ⟨pcd, hpcd, fun _ => hm.not_returned⟩)
  -- and what `d` did is settled
  have hfrozen := h.returned_frozen hlog hold
  have hdir : directs (log ++ os) d = directs log d := by
    rw [directs_append, (untouched_of fun o ho hact => absurd hact (hfrozen o ho)).2.1,
      List.append_nil]
  have hkey' : PublishedKey log ev.topic (idempotencyKey ev) d := by
    obtain ⟨evd, ⟨ctx, ho⟩, ht, hk⟩ := hkey
    refine ⟨evd, ⟨ctx, (List.mem_append.mp ho).resolve_right ?_⟩, ht, hk⟩
    exact fun ho => hfrozen _ ho rfl
  rw [hdir]
  rcases h.cases_call c with ⟨hsame, -⟩ | ⟨op, -, hpc', -⟩ | ⟨pc₀, pc', w₁, hpc₀, hm, rfl⟩
  · exact hinv c pc ev (hsame ▸ hpc) hev hne d err hold hkey' p hp
  · rw [hpc'] at hpc
    cases hpc
    cases op <;> exact nomatch hev
  · rw [Bus.setPc_calls_self] at hpc
    cases hpc
    rcases hm.inFlight_targets hev with ⟨hev₀, hsub⟩ | ⟨rfl, ⟨order, oldest, ha⟩, hreg⟩
    · exact hinv c pc₀ ev hpc₀ hev₀ hne d err hold hkey' p (hsub p hp)
    · exact hg c order oldest ev ha hpc₀ hne d err hold hkey' p (hreg p hp)

/-- A call that caches its event returns `Published` in the same step. -/
theorem Effect.cached_mem {x : Copy} (h : Effect w a w' os) (ho : .cached x ∈ os) :
    .returned x.call .published ∈ os := by
  cases h with
  | call _ hm =>
    cases hm with
    | publishCached =>
      simp only [List.mem_cons, List.mem_append, Bus.mem_cacheObs, List.not_mem_nil, or_false,
        reduceCtorEq, false_or, Obs.cached.injEq, and_false, exists_false] at ho
      obtain ⟨-, rfl⟩ := ho
      simp
    | _ => simp at ho
  | _ => simp at ho

/-- The events in the topic cache are published. -/
theorem cached_published (h : (Bus.lts config).Reach G log w) {t : Bytes} {x : Copy}
    (hx : x ∈ w.broker.cached t) : .returned x.call .published ∈ log := by
  revert t
  refine h.invariant (P := fun log w => ∀ {t : Bytes}, x ∈ w.broker.cached t →
    .returned x.call .published ∈ log) ?_ ?_
  · rintro _ rfl t hx
    simp [new, Broker.cached] at hx
  · intro log w a w' os ih _ hstep t hx
    rcases (step_effect hstep).cached hx with hold | ⟨-, -, ho⟩
    · exact List.mem_append_left _ (ih hold)
    · exact List.mem_append_right _ ((step_effect hstep).cached_mem ho)

/-- The queue of `p` was given events with one key by one call only. -/
def OneSource (log : List Obs) (p : SubPtr) : Prop :=
  ∀ x ∈ given log p, ∀ y ∈ given log p, SameKey x.event y.event → idempotencyKey x.event ≠ [] →
    x.call = y.call

/-- An event that is put in a queue now comes from the call that has put events with its key
    there before. -/
theorem put_source {p : SubPtr} {x y : Copy} {route : Route}
    (h : (Bus.lts config).Reach G log w) (hinv : DedupInv log w) (hun : Unsent log w)
    (heff : Effect w a w' os) (hx : .put p x route ∈ os) (hy : y ∈ given log p)
    (hsame : SameKey x.event y.event) (hk : idempotencyKey x.event ≠ []) : x.call = y.call := by
  obtain ⟨route', hput⟩ := mem_given.mp hy
  rcases heff.put_cases hx with ⟨rfl, -⟩ | ⟨todo, hpc⟩
  · -- a new subscription has been given nothing before
    obtain ⟨-, sub, hs, -⟩ := (log_inv h).put _ y route' hput
    simp at hs
  · have hfl : w.InFlight x.call x.event := ⟨_, hpc, rfl⟩
    have hky : idempotencyKey y.event ≠ [] := hsame.2 ▸ hk
    obtain ⟨hby, hfly | hpub | ⟨hdir, err, hfail⟩⟩ := given_status h hy
    · exact hinv.alone _ _ _ _ hfl hfly hsame hk
    · refine absurd (hinv.done _ _ hby hpub hky) ?_
      rw [← hsame.1, ← hsame.2]
      exact hinv.fresh _ _ hfl
    · exact absurd hdir (hun _ _ _ hpc rfl hk _ err hfail
        ⟨y.event, hby, hsame.1.symm, hsame.2.symm⟩ p (by simp [Pc.targets]))

theorem oneSource_step {p : SubPtr} (h : (Bus.lts config).Reach G log w)
    (hinv : DedupInv log w) (hun : Unsent log w) (heff : Effect w a w' os)
    (hone : OneSource log p) : OneSource (log ++ os) p := by
  intro x hx y hy hsame hk
  rw [given_append] at hx hy
  rcases List.mem_append.mp hx with hx | hx <;> rcases List.mem_append.mp hy with hy | hy
  · exact hone x hx y hy hsame hk
  · obtain ⟨route, ho⟩ := mem_given.mp hy
    exact (put_source h hinv hun heff ho hx ⟨hsame.1.symm, hsame.2.symm⟩ (hsame.2 ▸ hk)).symm
  · obtain ⟨route, ho⟩ := mem_given.mp hx
    exact put_source h hinv hun heff ho hy hsame hk
  · -- two events given by one step are replayed, or the event is sent once
    obtain ⟨route, ho⟩ := mem_given.mp hx
    obtain ⟨route', ho'⟩ := mem_given.mp hy
    rcases heff.put_cases ho with ⟨rfl, t, -, hcx, -⟩ | ⟨todo, hpc⟩ <;>
      rcases heff.put_cases ho' with ⟨hp, t', -, hcy, -⟩ | ⟨todo', hpc'⟩
    · obtain ⟨-, hbyx⟩ := (log_inv h).cached t x hcx
      obtain ⟨-, hbyy⟩ := (log_inv h).cached t' y hcy
      exact hinv.once _ _ _ _ hbyx hbyy (cached_published h hcx) (cached_published h hcy) hsame hk
    · have hlt := (registry_inv h).targets _ _ w.subs.length hpc' (by simp [Pc.targets])
      exact absurd hlt (Nat.lt_irrefl _)
    · subst hp
      have hlt := (registry_inv h).targets _ _ w.subs.length hpc (by simp [Pc.targets])
      exact absurd hlt (Nat.lt_irrefl _)
    · exact hinv.alone _ _ _ _ ⟨_, hpc, rfl⟩ ⟨_, hpc', rfl⟩ hsame hk

end Sequential

/-- The runs in which retries are safe. -/
def SafeRetries (s : Bus × List Obs) (a : Action) : Prop :=
  Sequentially s.1 a ∧ RetriesUnsent s a

/-- A rejected publish can be retried, if no subscription which is still registered has got
    its event: with room for all keys, in sequential runs where this is so whenever a call
    enters, no queue is given two events with one topic and one non-empty key. -/
theorem retry_safe {config : Config} {log : List Obs} {s : Bus × List Obs}
    (h : (Bus.lts config).history.Reach SafeRetries log s)
    (hsize : ∀ t, (keysUsed log t).card ≤ config.normalise.deduplicationSize)
    (t k : Bytes) (hk : k ≠ []) (p : SubPtr) :
    ((given log p).countP fun x => x.event.topic = t ∧ idempotencyKey x.event = k) ≤ 1 := by
  have hseq : ∀ {log : List Obs} {w : Bus},
      (Bus.lts config).history.Reach SafeRetries log (w, log) →
      (Bus.lts config).Reach Sequentially log w :=
    fun h => h.of_history fun _ _ hg => hg.1
  have hrun : (Bus.lts config).Reach Sequentially log s.1 := h.of_history fun _ _ hg => hg.1
  have hunsent : ∀ {log : List Obs} {w : Bus},
      (Bus.lts config).history.Reach SafeRetries log (w, log) → Unsent log w := by
    intro log w h
    refine h.induct_history (P := Unsent) ?_ ?_
    · rintro _ rfl c pc ev hpc
      cases hpc
    · intro log w a w' os hr ih hg hstep
      exact unsent_step (step_effect hstep) (log_inv (hseq hr))
        (fun c d => running_unique (hseq hr) fun _ _ hg => hg) hg.2 ih
  have hone : (∀ t, (keysUsed log t).card ≤ config.normalise.deduplicationSize) →
      OneSource log p := by
    refine h.induct_history (P := fun log _ => (∀ t, (keysUsed log t).card ≤
      config.normalise.deduplicationSize) → OneSource log p) (by simp [OneSource, given]) ?_
    intro log w a w' os hr ih hg hstep hsize'
    have hsize : ∀ t, (keysUsed log t).card ≤ config.normalise.deduplicationSize := fun t =>
      (Finset.card_le_card (keysUsed_subset log os t)).trans (hsize' t)
    have hdedup := dedup_inv (noRace_of_sequentially (hseq hr) fun _ _ hg => hg) hsize
    exact oneSource_step (hseq hr) hdedup (hunsent hr) (step_effect hstep) (ih hsize)
  exact given_key_le_one hrun fun x hx y hy hsame hkey =>
    hone hsize x hx y hy hsame (hkey ▸ hk)

/-- Has the call returned? -/
def Pc.isReturned : Pc → Bool
  | .returned _ => true
  | _ => false

/-- Only calls below `n` are made, each after all calls before it have returned. -/
def Turns (n : Nat) (w : Bus) (a : Action) : Prop :=
  ∀ c ∈ invokes a, c < n ∧ ∀ d < n, ∀ pc ∈ w.calls d, pc.isReturned = true

instance (n : Nat) (w : Bus) (a : Action) : Decidable (Turns n w a) :=
  inferInstanceAs (Decidable (∀ _ ∈ _, _))

section Turns

variable {config : Config} {n : Nat} {w w' : Bus} {a : Action}

theorem sequentially_of_turns (hnone : ∀ d, n ≤ d → w.calls d = none) (h : Turns n w a) :
    Sequentially w a := by
  rintro c op rfl d pc hpc
  by_cases hd : d < n
  · have hret := (h c rfl).2 d hd pc hpc
    cases pc with
    | returned r => exact ⟨r, rfl⟩
    | _ => cases hret
  · rw [hnone d (Nat.le_of_not_lt hd)] at hpc
    cases hpc

theorem turns_step {os : List Obs} (hnone : ∀ d, n ≤ d → w.calls d = none) (h : Turns n w a)
    (hstep : w.step a = some (w', os)) : ∀ d, n ≤ d → w'.calls d = none := by
  refine calls_below_step (step_effect hstep) hnone ?_
  rintro c op rfl
  exact (h c rfl).1

variable {O : Type} {M : Lts Bus Action O} {log : List O}

/-- Calls that take turns are made one after another, in the runs of the broker and where
    these are observed more closely. -/
theorem reach_of_turns (hnew : ∀ w, M.init w → w = new config)
    (hM : ∀ w a w' os, M.step w a = some (w', os) → ∃ os', w.step a = some (w', os'))
    (h : M.Reach (Turns n) log w) : M.Reach Sequentially log w := by
  obtain ⟨w₀, hinit, hsteps⟩ := h
  refine ⟨w₀, hinit, hsteps.strengthen (P := fun w => ∀ d, n ≤ d → w.calls d = none) ?_ ?_ ?_⟩
  · obtain rfl := hnew w₀ hinit
    exact fun _ _ => rfl
  · intro w a w' os hnone hg hstep
    obtain ⟨os', hstep'⟩ := hM w a w' os hstep
    exact turns_step hnone hg hstep'
  · exact fun w a hnone hg => sequentially_of_turns hnone hg

/-- The same with a guard that depends on the run so far. -/
theorem history_of_turns {H : Bus × List O → Action → Prop} {s : Bus × List O}
    (hnew : ∀ w, M.init w → w = new config)
    (hM : ∀ w a w' os, M.step w a = some (w', os) → ∃ os', w.step a = some (w', os'))
    (h : M.history.Reach (fun s a => Turns n s.1 a ∧ H s a) log s) :
    M.history.Reach (fun s a => Sequentially s.1 a ∧ H s a) log s := by
  obtain ⟨s₀, hinit, hsteps⟩ := h
  refine ⟨s₀, hinit,
    hsteps.strengthen (P := fun s => ∀ d, n ≤ d → s.1.calls d = none) ?_ ?_ ?_⟩
  · intro d _
    rw [hnew s₀.1 hinit.1]
    rfl
  · intro s a s' os hnone hg hstep
    obtain ⟨os', hstep'⟩ := hM s.1 a s'.1 os (Lts.history_step hstep).1
    exact turns_step hnone hg.1 hstep'
  · exact fun s a hnone hg => ⟨sequentially_of_turns hnone hg.1, hg.2⟩

end Turns

/-- The calls that have failed. -/
private def failedCalls (log : List Obs) : List CallId :=
  log.filterMap fun
    | .returned c (.failed _) => some c
    | _ => none

/-- A full queue makes the only subscriber's publish fail; after the consumer has received,
    the retry gives the queue the event once. -/
theorem retry_safe_full_queue :
    ∃ log s, (Bus.lts ⟨1, 0, 32, .drop⟩).history.Reach SafeRetries log s ∧
      .returned 2 (.failed .queueFull) ∈ log ∧ .returned 3 .published ∈ log ∧
      ((given log 0).countP fun x => x.event.topic = [7] ∧ idempotencyKey x.event = [2]) ≤ 1 := by
  obtain ⟨log, s, hr, hlen, hfail, hpub⟩ :=
    Lts.reach_of_runWhere (M := (Bus.lts ⟨1, 0, 32, .drop⟩).history)
      (G := fun s a => Turns 4 s.1 a ∧ ∀ d ∈ failedCalls s.2, directs s.2 d = [])
      (Lts.history_init rfl)
      (Broker.subscribeRun 0 ++ Broker.publishRun 1 1 [0] ++ Broker.giveRun 1 ++
        [Action.publishLeave 1 []] ++ Broker.publishRun 2 2 [0] ++ Broker.refuseRun 2 ++
        [Action.receive 0] ++ Broker.publishRun 3 2 [0] ++ Broker.giveRun 3 ++
        [Action.publishLeave 3 []])
      (Q := fun r => r.2.length ≤ 32 ∧ .returned 2 (.failed .queueFull) ∈ r.2 ∧
        .returned 3 .published ∈ r.2)
      (by decide)
  have h : (Bus.lts ⟨1, 0, 32, .drop⟩).history.Reach SafeRetries log s := by
    refine (history_of_turns (fun _ hinit => hinit) (fun _ _ _ os hstep => ⟨os, hstep⟩) hr).mono ?_
    rintro s a ⟨hseq, hclean⟩
    refine ⟨hseq, fun c order oldest ev _ _ _ d err hret _ p _ hp => ?_⟩
    rw [hclean d (List.mem_filterMap.mpr ⟨_, hret, rfl⟩)] at hp
    cases hp
  exact ⟨log, s, h, hfail, hpub,
    retry_safe h (fun t => (keysUsed_card_le log t).trans hlen) [7] [2] (by simp) 0⟩

/-- Two subscribers, of which the second has a full queue: the publish reaches the first and
    fails, and its retry gives the first the event again. -/
theorem retry_duplicates :
    ∃ log w, (Bus.lts ⟨1, 0, 32, .drop⟩).Reach Sequentially log w ∧
      (∀ t, (keysUsed log t).card ≤ 32) ∧
      .returned 3 (.failed .queueFull) ∈ log ∧ .returned 4 .published ∈ log ∧
      ((given log 0).countP fun x => x.event.topic = [7] ∧ idempotencyKey x.event = [2]) = 2 := by
  obtain ⟨log, w, hr, hlen, hfail, hpub, htwo⟩ :=
    Lts.reach_of_runWhere (M := Bus.lts ⟨1, 0, 32, .drop⟩) (G := Turns 5) rfl
      (Broker.subscribeRun 0 ++ Broker.subscribeRun 1 ++
        Broker.publishRun 2 1 [0, 1] ++ Broker.giveRun 2 ++ Broker.giveRun 2 ++
        [Action.publishLeave 2 [], .receive 0] ++
        Broker.publishRun 3 2 [0, 1] ++ Broker.giveRun 3 ++ Broker.refuseRun 3 ++
        [Action.receive 0, .receive 1] ++
        Broker.publishRun 4 2 [0, 1] ++ Broker.giveRun 4 ++ Broker.giveRun 4 ++
        [Action.publishLeave 4 []])
      (Q := fun r => r.2.length ≤ 32 ∧ .returned 3 (.failed .queueFull) ∈ r.2 ∧
        .returned 4 .published ∈ r.2 ∧
        ((given r.2 0).countP fun x => x.event.topic = [7] ∧ idempotencyKey x.event = [2]) = 2)
      (by decide)
  exact ⟨log, w, reach_of_turns (fun _ hinit => hinit) (fun _ _ _ os hstep => ⟨os, hstep⟩) hr,
    fun t => (keysUsed_card_le log t).trans hlen, hfail, hpub, htwo⟩

/-! ## The deduplication window -/

/-- The event that a step accepts, that of the call it makes return `Published`. -/
def Bus.accepting (w : Bus) (a : Action) : List Event :=
  match w.step a with
  | some (_, os) => (os.findSome? fun
      | .returned c .published => (w.calls c).bind Pc.event
      | _ => none).toList
  | none => []

/-- The runs of a broker, with the events it accepts. -/
def Bus.publishing (config : Config) : Lts Bus Action (Obs ⊕ Event) :=
  (Bus.lts config).observe Bus.accepting

/-- The non-empty keys of the events of topic `t`. -/
def keysAccepted (evs : List Event) (t : Bytes) : List Bytes :=
  evs.filterMap fun ev =>
    if ev.topic = t ∧ idempotencyKey ev ≠ [] then some (idempotencyKey ev) else none

/-- The key that the map iteration yields first, should the step have to evict one. -/
def Action.oldest : Action → Option Bytes
  | .publishEnter _ _ oldest | .publishLeave _ oldest => some oldest
  | _ => none

/-- A step that accepts an event on a topic with as many remembered keys as fit evicts the
    first of the `DeduplicationSize` keys accepted last. -/
def EvictsOldest (s : Bus × List (Obs ⊕ Event)) (a : Action) : Prop :=
  ∀ ev ∈ s.1.accepting a, idempotencyKey ev ≠ [] →
    s.1.broker.config.deduplicationSize ≤ (s.1.broker.remembered ev.topic).card →
    a.oldest = ((keysAccepted (Lts.extra s.2) ev.topic).rtake
      s.1.broker.config.deduplicationSize).head?

instance (s : Bus × List (Obs ⊕ Event)) (a : Action) : Decidable (EvictsOldest s a) :=
  inferInstanceAs (Decidable (∀ _ ∈ _, _))

/-- The runs in which the remembered keys are the most recent ones. -/
def FifoEviction (s : Bus × List (Obs ⊕ Event)) (a : Action) : Prop :=
  Sequentially s.1 a ∧ EvictsOldest s a

namespace Broker

variable {b b' : Broker} {topic id oldest : Bytes}

/-- What `remember` makes of the keys of its topic. -/
theorem remembered_remember (h : b.remember topic id oldest = some b') (hid : id ≠ [])
    (hsize : b.config.deduplicationSize ≠ 0) :
    b'.remembered topic = insert id
      (if b.config.deduplicationSize ≤ (b.remembered topic).card then
        (b.remembered topic).erase oldest else b.remembered topic) := by
  simp only [remember, hid, hsize, or_self, if_false] at h
  split at h
  · rename_i hfull
    rw [if_pos hfull]
    split at h
    · cases h
      simp [remembered]
    · cases h
  · rename_i hroom
    rw [if_neg hroom]
    cases h
    simp [remembered]

/-- `remember` leaves the other topics alone, and its own if there is no key. -/
theorem remembered_remember_of (h : b.remember topic id oldest = some b') {t : Bytes}
    (ht : t ≠ topic ∨ id = []) : b'.remembered t = b.remembered t := by
  simp only [remember] at h
  split at h
  · rw [← Option.some.inj h]
  rename_i hid
  have hne : t ≠ topic := ht.resolve_right fun hnil => hid (.inl hnil)
  split at h
  · split at h
    · cases h
      simp [remembered, AList.lookup_insert_ne hne]
    · cases h
  · cases h
    simp [remembered, AList.lookup_insert_ne hne]

end Broker

section Window

variable {config : Config} {G : Bus → Action → Prop} {log os : List Obs} {w w' : Bus}
  {a : Action} {c : CallId} {ev : Event}

@[simp] theorem keysAccepted_append (evs evs' : List Event) (t : Bytes) :
    keysAccepted (evs ++ evs') t = keysAccepted evs t ++ keysAccepted evs' t :=
  List.filterMap_append

theorem keysAccepted_singleton (ev : Event) (t : Bytes) :
    keysAccepted [ev] t =
      if ev.topic = t ∧ idempotencyKey ev ≠ [] then [idempotencyKey ev] else [] := by
  simp only [keysAccepted, List.filterMap_cons, List.filterMap_nil]
  split <;> split at * <;> simp_all

/-- The event of the call that a step makes return `Published`. -/
theorem Publishes.event (h : Publishes w a w' os c ev) : (w.calls c).bind Pc.event = some ev := by
  rcases h.origin with hpc | ⟨hpc, -⟩
  · rw [hpc]
    rfl
  · rw [hpc]
    rfl

theorem Publishes.accepting (h : Publishes w a w' os c ev) (hstep : w.step a = some (w', os)) :
    w.accepting a = [ev] := by
  simp only [Bus.accepting, hstep]
  cases hfind : os.findSome? fun
      | .returned c .published => (w.calls c).bind Pc.event
      | _ => none with
  | none =>
    have hnone := List.findSome?_eq_none_iff.mp hfind _ ((h.reports c).mpr rfl)
    simp only [h.event] at hnone
    cases hnone
  | some ev' =>
    obtain ⟨o, ho, hev⟩ := List.exists_of_findSome?_eq_some hfind
    split at hev
    · rename_i d
      obtain rfl := (h.reports d).mp ho
      rw [h.event] at hev
      rw [Option.some.inj hev]
      rfl
    · cases hev

theorem accepting_eq_nil (hstep : w.step a = some (w', os))
    (hnot : ∀ c, .returned c .published ∉ os) : w.accepting a = [] := by
  simp only [Bus.accepting, hstep]
  rw [List.findSome?_eq_none_iff.mpr]
  · rfl
  · intro o ho
    split
    · exact absurd ho (hnot _)
    · rfl

/-- The key that a step which accepts an event evicts is the one its action names. -/
theorem Publishes.oldest (h : Publishes w a w' os c ev) (heff : Effect w a w' os) :
    ∃ (b : Broker) (oldest : Bytes), a.oldest = some oldest ∧
      b.remember ev.topic (idempotencyKey ev) oldest = some w'.broker ∧
      b.dedup = w.broker.dedup ∧ b.config = w.broker.config := by
  have ho := (h.reports c).mpr rfl
  rcases heff.cases_call c with ⟨-, hnot⟩ | ⟨op, -, -, rfl⟩ | ⟨pc, pc', w₁, hpc, hm, rfl⟩
  · exact absurd rfl (hnot _ ho)
  · simp at ho
  · have hpc' := hm.returned_mem.mp ho
    have hev := h.event
    rw [hpc, Option.bind_some] at hev
    cases hm with
    | publishCached _ _ _ _ hrem =>
      cases hev
      exact ⟨_, _, rfl, hrem, by simp, by simp⟩
    | publishLeave hrem =>
      cases hev
      exact ⟨_, _, rfl, hrem, rfl, rfl⟩
    | quiet hq =>
      cases hq with
      | closeOnceAfter | closeWait => cases hev
      | _ => cases hpc'
    | closeBroker | closeEvents => cases hev
    | _ => cases hpc'

/-- The key of a call in flight is not remembered. -/
theorem fresh_inv (h : (Bus.lts config).Reach G log w) (hG : ∀ w a, G w a → Sequentially w a)
    (hsize : config.normalise.deduplicationSize ≠ 0) (hfl : w.InFlight c ev) :
    idempotencyKey ev ∉ w.broker.remembered ev.topic := by
  revert hfl
  refine h.induct_reach (P := fun _ w => w.InFlight c ev →
    idempotencyKey ev ∉ w.broker.remembered ev.topic) ?_ ?_
  · rintro _ rfl ⟨pc, hpc, -⟩
    cases hpc
  · intro log w a w' os hr ih _ hstep hfl hmem
    have heff := step_effect hstep
    rcases heff.published_cases with ⟨hsame, -⟩ | ⟨d, ev', hp⟩
    · rw [hsame] at hmem
      rcases heff.inFlight hfl with hold | ⟨-, -, hunseen⟩
      · exact ih hold hmem
      · have hk := (known_inv hr _ _ hmem).1
        refine hunseen ⟨hk, (Broker.seen_iff hk ?_).mpr hmem⟩
        rwa [config_inv hr]
    · -- the call that returns now is the only one that was running
      obtain ⟨hne, hold⟩ := hp.inFlight heff hfl
      refine hne (running_unique hr hG hold.running ?_)
      rcases hp.origin with hpc | ⟨hpc, -⟩
      · exact ⟨_, hpc, by simp⟩
      · exact ⟨_, hpc, by simp⟩

/-- The key of an accepted event was not remembered. -/
theorem Publishes.fresh (h : Publishes w a w' os c ev) (hr : (Bus.lts config).Reach G log w)
    (hG : ∀ w a, G w a → Sequentially w a) (hsize : config.normalise.deduplicationSize ≠ 0) :
    idempotencyKey ev ∉ w.broker.remembered ev.topic := by
  rcases h.origin with hpc | ⟨-, -, hunseen⟩
  · exact fresh_inv hr hG hsize ⟨_, hpc, rfl⟩
  · intro hmem
    have hk := (known_inv hr _ _ hmem).1
    refine hunseen ⟨hk, (Broker.seen_iff hk ?_).mpr hmem⟩
    rwa [config_inv hr]

/-- The keys of every topic are the `DeduplicationSize` ones accepted last. -/
def Window (n : Nat) (evs : List Event) (b : Broker) : Prop :=
  ∀ t, ((keysAccepted evs t).rtake n).Nodup ∧
    ((keysAccepted evs t).rtake n).toFinset = b.remembered t

/-- The window moves by one key where the oldest is evicted. -/
theorem Window.remember {evs : List Event} {b b' : Broker} {oldest : Bytes} {n : Nat}
    (hwin : Window n evs b) (hn : b.config.deduplicationSize = n) (hpos : n ≠ 0)
    (hrem : b.remember ev.topic (idempotencyKey ev) oldest = some b')
    (hnew : idempotencyKey ev ∉ b.remembered ev.topic)
    (hold : idempotencyKey ev ≠ [] → n ≤ (b.remembered ev.topic).card →
      some oldest = ((keysAccepted evs ev.topic).rtake n).head?) :
    Window n (evs ++ [ev]) b' := by
  intro t
  obtain ⟨hnodup, hkeys⟩ := hwin t
  rw [keysAccepted_append, keysAccepted_singleton]
  split
  swap
  · -- another topic, or no key
    rename_i hother
    have hne : t ≠ ev.topic ∨ idempotencyKey ev = [] := by
      by_contra hboth
      simp only [not_or, not_not, ne_eq] at hboth
      exact hother ⟨hboth.1.symm, hboth.2⟩
    rw [List.append_nil, Broker.remembered_remember_of hrem hne]
    exact ⟨hnodup, hkeys⟩
  rename_i hthis
  obtain ⟨rfl, hk⟩ := hthis
  have hcard : (b.remembered ev.topic).card = min n (keysAccepted evs ev.topic).length := by
    rw [← hkeys, List.toFinset_card_of_nodup hnodup, List.length_rtake]
  rw [← hkeys, List.mem_toFinset] at hnew
  rw [Broker.remembered_remember hrem hk (hn ▸ hpos), hn]
  rcases Nat.lt_or_ge (keysAccepted evs ev.topic).length n with hlt | hge
  · -- there is room for one more key
    rw [List.rtake_concat_of_lt hlt, if_neg (by omega), ← hkeys]
    refine ⟨hnodup.append (List.nodup_singleton _) (by simpa using hnew), ?_⟩
    ext x
    simp
  · have hfull : n ≤ (b.remembered ev.topic).card := by omega
    -- the oldest key goes, which is the first of the window
    obtain ⟨y, ys, hwindow, hmoved⟩ := List.rtake_concat_of_le hpos hge (idempotencyKey ev)
    have hoy := hold hk hfull
    rw [hwindow, List.head?_cons, Option.some.injEq] at hoy
    subst hoy
    rw [hwindow, List.nodup_cons] at hnodup
    rw [hwindow, List.mem_cons, not_or] at hnew
    rw [hmoved, if_pos hfull, ← hkeys, hwindow]
    refine ⟨hnodup.2.append (List.nodup_singleton _) (by simpa using hnew.2), ?_⟩
    have herase : (oldest :: ys).toFinset.erase oldest = ys.toFinset := by
      rw [List.toFinset_cons, Finset.erase_insert (by simpa using hnodup.1)]
    rw [herase]
    ext x
    simp

end Window

/-- The remembered keys are those accepted last. -/
theorem window_inv {config : Config} {log : List (Obs ⊕ Event)} {s : Bus × List (Obs ⊕ Event)}
    (h : (Bus.publishing config).history.Reach FifoEviction log s)
    (hpos : config.normalise.deduplicationSize ≠ 0) :
    Window config.normalise.deduplicationSize (Lts.extra log) s.1.broker := by
  refine h.induct_history (P := fun log w =>
    Window config.normalise.deduplicationSize (Lts.extra log) w.broker) ?_ ?_
  · rintro _ rfl t
    simp [keysAccepted, new, Broker.remembered]
  · intro log w a w' os hr ih hg hstep
    obtain ⟨hstep, hextra⟩ := Lts.observe_step hstep
    have hrun : (Bus.lts config).Reach Sequentially (Lts.inner log) w :=
      Lts.Reach.of_observe (hr.of_history fun _ _ hg => hg.1)
    have hconfig := config_inv hrun
    rw [Lts.extra_append, hextra]
    rcases (step_effect hstep).published_cases with ⟨hsame, hnot⟩ | ⟨c, ev, hp⟩
    · rw [accepting_eq_nil hstep hnot, List.append_nil]
      exact fun t => ⟨(ih t).1, (ih t).2.trans (hsame t).symm⟩
    · obtain ⟨b, oldest, hoa, hrem, hdedup, hconf⟩ := hp.oldest (step_effect hstep)
      rw [hp.accepting hstep]
      have hkeys := Broker.remembered_congr hdedup
      refine Window.remember (b := b) ?_ ?_ hpos hrem ?_ ?_
      · exact fun t => ⟨(ih t).1, (ih t).2.trans (hkeys t).symm⟩
      · rw [hconf, hconfig]
      · rw [hkeys]
        exact hp.fresh hrun (fun _ _ hg => hg) hpos
      · intro hk hfull
        have hev := hg.2 ev (by rw [hp.accepting hstep]; simp) hk
        rw [hconfig, ← hkeys] at hev
        rw [← hev hfull, hoa]

/-- The deduplication window, where the iteration over a full map yields the oldest key: in
    sequential runs, if an event with a non-empty key was accepted and fewer than
    `DeduplicationSize` other keys have been accepted on its topic since, then publishing the
    key again returns `Duplicate`, unless the broker is closed or draining. -/
theorem deduplication_window {config : Config} {log : List (Obs ⊕ Event)}
    {s : Bus × List (Obs ⊕ Event)}
    (h : (Bus.publishing config).history.Reach FifoEviction log s)
    {ev ev' : Event} {pre post : List Event} (haccepted : Lts.extra log = pre ++ ev :: post)
    (hk : idempotencyKey ev ≠ [])
    (hfew : ((keysAccepted post ev.topic).toFinset.erase (idempotencyKey ev)).card <
      config.normalise.deduplicationSize)
    {c : CallId} (hc : s.1.calls c = some (.publish ev')) (hsame : SameKey ev' ev)
    (hopen : s.1.broker.closed = false) (hdraining : s.1.broker.draining = false)
    (order : List SubPtr) (oldest : Bytes) :
    s.1.step (.publishEnter c order oldest) =
      some (s.1.setPc c (.returned .duplicate), [.returned c .duplicate]) := by
  have hpos : config.normalise.deduplicationSize ≠ 0 := by omega
  have hrun : (Bus.lts config).Reach Sequentially (Lts.inner log) s.1 :=
    Lts.Reach.of_observe (h.of_history fun _ _ hg => hg.1)
  obtain ⟨hnodup, hkeys⟩ := window_inv h hpos ev.topic
  have hsplit : keysAccepted (Lts.extra log) ev.topic =
      keysAccepted pre ev.topic ++ idempotencyKey ev :: keysAccepted post ev.topic := by
    rw [haccepted, ← List.singleton_append, keysAccepted_append, keysAccepted_append,
      keysAccepted_singleton, if_pos ⟨rfl, hk⟩, List.singleton_append]
  rw [hsplit] at hnodup hkeys
  have hmem : idempotencyKey ev ∈ s.1.broker.remembered ev.topic := by
    rw [← hkeys, List.mem_toFinset]
    exact List.mem_rtake_of_few hnodup hfew
  have hseen : s.1.broker.seen ev'.topic (idempotencyKey ev') = true := by
    rw [hsame.1, hsame.2, Broker.seen_iff hk (by rwa [config_inv hrun])]
    exact hmem
  have hk' : idempotencyKey ev' ≠ [] := hsame.2 ▸ hk
  simp [Bus.step, Bus.publishEnter, hc, hopen, hdraining, hk', hseen, Bus.goto, Pc.report]

/-- The window of size two after three keys: the second one is still a duplicate. -/
theorem deduplication_window_second :
    ∃ log s, (Bus.publishing ⟨1, 0, 2, .block⟩).history.Reach FifoEviction log s ∧
      Lts.extra log =
        [⟨[1], [], [7], [], []⟩, ⟨[2], [], [7], [], []⟩, ⟨[3], [], [7], [], []⟩] ∧
      s.1.step (.publishEnter 3 [] []) =
        some (s.1.setPc 3 (.returned .duplicate), [.returned 3 .duplicate]) := by
  obtain ⟨log, s, hr, hextra, hc, hopen, hdraining⟩ :=
    Lts.reach_of_runWhere (M := (Bus.publishing ⟨1, 0, 2, .block⟩).history)
      (G := fun s a => Turns 4 s.1 a ∧ EvictsOldest s a)
      (Lts.history_init rfl)
      [.invoke 0 (.publishWithResult .background ⟨[1], [], [7], [], []⟩), .publishEnter 0 [] [],
        .invoke 1 (.publishWithResult .background ⟨[2], [], [7], [], []⟩), .publishEnter 1 [] [],
        .invoke 2 (.publishWithResult .background ⟨[3], [], [7], [], []⟩), .publishEnter 2 [] [1],
        .invoke 3 (.publishWithResult .background ⟨[2], [], [7], [], []⟩)]
      (Q := fun r => Lts.extra r.2 =
          [⟨[1], [], [7], [], []⟩, ⟨[2], [], [7], [], []⟩, ⟨[3], [], [7], [], []⟩] ∧
        r.1.1.calls 3 = some (.publish ⟨[2], [], [7], [], []⟩) ∧
        r.1.1.broker.closed = false ∧ r.1.1.broker.draining = false)
      (by decide)
  have h : (Bus.publishing ⟨1, 0, 2, .block⟩).history.Reach FifoEviction log s :=
    history_of_turns (fun _ hinit => hinit)
      (fun _ _ _ _ hstep => ⟨_, (Lts.observe_step hstep).1⟩) hr
  exact ⟨log, s, h, hextra,
    deduplication_window h (show _ = [⟨[1], [], [7], [], []⟩] ++ _ :: _ from hextra) (by decide)
      (by decide) hc
      ⟨rfl, rfl⟩ hopen hdraining [] []⟩

/-- The iteration may yield the newest key: with a window of size two, the second key is
    evicted by the third one and is then published again. -/
theorem recent_key_evicted :
    ∃ log w, (Bus.publishing ⟨1, 0, 2, .block⟩).Reach Sequentially log w ∧
      failures (Lts.inner log) = [] ∧
      Lts.extra log =
        [⟨[1], [], [7], [], []⟩] ++ ⟨[2], [], [7], [], []⟩ :: [⟨[3], [], [7], [], []⟩] ∧
      ((keysAccepted [⟨[3], [], [7], [], []⟩] [7]).toFinset.erase [2]).card < 2 ∧
      w.calls 3 = some (.publish ⟨[2], [], [7], [], []⟩) ∧
      w.broker.closed = false ∧ w.broker.draining = false ∧
      ∃ w' os, w.step (.publishEnter 3 [] [1]) = some (w', os) ∧ .returned 3 .published ∈ os := by
  obtain ⟨log, w, hr, hfail, hextra, hc, hopen, hdraining, ⟨w', os⟩, hstep, ho⟩ :=
    Lts.reach_of_runWhere (M := Bus.publishing ⟨1, 0, 2, .block⟩) (G := Turns 4) rfl
      [.invoke 0 (.publishWithResult .background ⟨[1], [], [7], [], []⟩), .publishEnter 0 [] [],
        .invoke 1 (.publishWithResult .background ⟨[2], [], [7], [], []⟩), .publishEnter 1 [] [],
        .invoke 2 (.publishWithResult .background ⟨[3], [], [7], [], []⟩), .publishEnter 2 [] [2],
        .invoke 3 (.publishWithResult .background ⟨[2], [], [7], [], []⟩)]
      (Q := fun r => failures (Lts.inner r.2) = [] ∧
        Lts.extra r.2 =
          [⟨[1], [], [7], [], []⟩] ++ ⟨[2], [], [7], [], []⟩ :: [⟨[3], [], [7], [], []⟩] ∧
        r.1.calls 3 = some (.publish ⟨[2], [], [7], [], []⟩) ∧
        r.1.broker.closed = false ∧ r.1.broker.draining = false ∧
        ∃ r' ∈ r.1.step (.publishEnter 3 [] [1]), .returned 3 .published ∈ r'.2)
      (by decide)
  refine ⟨log, w, ?_, hfail, hextra, by decide, hc, hopen, hdraining, w', os, hstep, ho⟩
  exact reach_of_turns (fun _ hinit => hinit)
    (fun _ _ _ _ hstep => ⟨_, (Lts.observe_step hstep).1⟩) hr

end EventBus
