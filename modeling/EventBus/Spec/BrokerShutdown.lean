import EventBus.Spec.BrokerCalls
import EventBus.Spec.BrokerDedup

/-!
# BeginShutdown as a barrier

`BeginShutdown` sets a flag that `PublishWithResult` reads in its first critical section. A
publisher that has passed this section is not stopped: it goes on to put its event in the
queues of the subscribers it has copied (`barrier_passed`). Nothing else is put in a queue or
in a topic cache once `BeginShutdown` has returned (`shutdown_barrier`).

## Key results

- `shutdown_barrier`: what can still be enqueued after `BeginShutdown`
- `barrier_passed`: a publisher that is past its check
-/

namespace EventBus

/-- No publisher is between its first critical section and its return. -/
def Bus.NoneInFlight (w : Bus) : Prop := ∀ c ev, ¬w.InFlight c ev

section Draining

variable {w w' : Bus} {a : Action} {os : List Obs} {c : CallId} {ev : Event}

/-- While the broker drains, no publisher passes its check. -/
theorem Effect.inFlight_draining (h : Effect w a w' os) (hd : w.broker.draining = true)
    (hfl : w'.InFlight c ev) : w.InFlight c ev := by
  rcases h.inFlight hfl with hold | ⟨hpc, ⟨order, oldest, rfl⟩, -⟩
  · exact hold
  -- the step is that of the first critical section, which finds the flag set
  obtain ⟨pc, hpc', hev⟩ := hfl
  rcases h.cases_call c with ⟨hsame, -⟩ | ⟨op, hnone, -⟩ | ⟨pc₀, pc₁, w₁, hpc₀, hm, rfl⟩
  · rw [hsame, hpc] at hpc'
    cases hpc'
    cases hev
  · rw [hnone] at hpc
    cases hpc
  · rw [Bus.setPc_calls_self] at hpc'
    cases hpc'
    cases hm with
    | quiet hq => cases hq <;> cases hev
    | publishCached => cases hev
    | publishSnapshot _ hnot =>
      rw [hd] at hnot
      cases hnot

/-- While the broker drains, no event is cached. -/
theorem Effect.not_cached_draining (h : Effect w a w' os) (hd : w.broker.draining = true)
    (x : Copy) : .cached x ∉ os := by
  intro ho
  cases h with
  | call _ hm =>
    cases hm with
    | publishCached _ hnot =>
      rw [hd] at hnot
      cases hnot
    | _ => simp at ho
  | _ => simp at ho

/-- While the broker drains, events are put in queues by publishers in flight only. -/
theorem Effect.put_draining (h : Effect w a w' os) (hd : w.broker.draining = true) {p : SubPtr}
    {x : Copy} {route : Route} (ho : .put p x route ∈ os) :
    route = .direct ∧ w.InFlight x.call x.event := by
  cases h with
  | call hpc hm =>
    cases hm with
    | enqueueSend =>
      obtain ⟨-, rfl, rfl⟩ := Obs.put.inj (List.mem_singleton.mp ho)
      exact ⟨rfl, _, hpc, rfl⟩
    | subscribe _ hnot =>
      rw [hd] at hnot
      cases hnot
    | _ => simp at ho
  | _ => simp at ho

end Draining

/-- After `BeginShutdown` has returned, no event is added to a topic cache, and events are put
    in queues by calls only that had passed their first critical section: by none, if no call
    is in flight then. -/
theorem shutdown_barrier {config : Config} {G : Bus → Action → Prop} {log log' : List Obs}
    {w w' : Bus} {c : CallId} (h : (Bus.lts config).Reach G log w)
    (hcall : .invoked c .beginShutdown ∈ log) (hret : .returned c .ok ∈ log)
    (hsteps : (Bus.lts config).Steps G w log' w') :
    (∀ x, .cached x ∉ log') ∧
    (∀ p x route, .put p x route ∈ log' → route = .direct ∧ w.InFlight x.call x.event) ∧
    (w.NoneInFlight → ∀ p x route, .put p x route ∉ log') := by
  have hdraining : w.broker.draining = true :=
    (runs_of_invoked h hcall).begun (((log_inv h).returned c .ok).mp hret)
  have hinv : w'.broker.draining = true ∧ (∀ d ev, w'.InFlight d ev → w.InFlight d ev) ∧
      (∀ x, .cached x ∉ log') ∧
      ∀ p x route, .put p x route ∈ log' → route = .direct ∧ w.InFlight x.call x.event := by
    refine hsteps.invariant (P := fun log' w' => w'.broker.draining = true ∧
      (∀ d ev, w'.InFlight d ev → w.InFlight d ev) ∧ (∀ x, .cached x ∉ log') ∧
      ∀ p x route, .put p x route ∈ log' → route = .direct ∧ w.InFlight x.call x.event) ?_ ?_
    · exact ⟨hdraining, fun _ _ hfl => hfl, by simp, by simp⟩
    rintro log₁ w₁ a w₂ os ⟨hd, hfl, hcached, hput⟩ _ hstep
    have heff := step_effect hstep
    refine ⟨heff.draining hd, fun d ev h => hfl d ev (heff.inFlight_draining hd h), ?_, ?_⟩
    · intro x ho
      rcases List.mem_append.mp ho with hold | hnew
      · exact hcached x hold
      · exact heff.not_cached_draining hd x hnew
    · intro p x route ho
      rcases List.mem_append.mp ho with hold | hnew
      · exact hput p x route hold
      · obtain ⟨hroute, hx⟩ := heff.put_draining hd hnew
        exact ⟨hroute, hfl x.call x.event hx⟩
  obtain ⟨-, -, hcached, hput⟩ := hinv
  exact ⟨hcached, hput, fun hnone p x route ho => hnone _ _ (hput p x route ho).2⟩

/-- Where every publisher has returned, none is in flight. -/
theorem noneInFlight_of_returned {config : Config} {G : Bus → Action → Prop} {log : List Obs}
    {w : Bus} (h : (Bus.lts config).Reach G log w)
    (hret : ∀ c ev, PublishedBy log c ev → ∃ r, .returned c r ∈ log) : w.NoneInFlight := by
  rintro c ev ⟨pc, hpc, hev⟩
  have hlog := log_inv h
  obtain ⟨r, hr⟩ := hret c ev (hlog.publisher c pc ev hpc (Pc.event_of_inFlight hev))
  rw [(hlog.returned c r).mp hr] at hpc
  cases hpc
  cases hev

/-! ## Runs -/

private def beginRun : List Action := [.invoke 2 .beginShutdown, .beginShutdown 2]

/-- The publisher returns before `BeginShutdown` is called. Of the calls that come later, a
    publisher is refused and a subscriber too. -/
theorem shutdown_barrier_quiet :
    ∃ log w log' w', (Bus.lts ⟨2, 1, 0, .block⟩).Reach Lts.Always log w ∧
      (Bus.lts ⟨2, 1, 0, .block⟩).Steps Lts.Always w log' w' ∧
      .returned 2 .ok ∈ log ∧ .returned 3 (.failed .draining) ∈ log' ∧
      .returned 4 (.failed .closed) ∈ log' ∧ w.NoneInFlight ∧
      ∀ p x route, .put p x route ∉ log' := by
  obtain ⟨log, w, hr, hlog, ⟨w', log'⟩, hrun, hrefused, hclosed⟩ :=
    Lts.reach_of_runWhere (M := Bus.lts ⟨2, 1, 0, .block⟩) (G := Lts.Always) rfl
      (Broker.subscribeRun 0 ++ Broker.publishRun 1 1 [0] ++ Broker.giveRun 1 ++
        [Action.publishLeave 1 []] ++ beginRun)
      (Q := fun r => r.2 = [.invoked 0 (.subscribe [7]), .returned 0 (.subscribed 0),
          .invoked 1 (.publishWithResult .background ⟨[1], [], [7], [], []⟩), .snapshot 1 [0],
          .put 0 ⟨1, ⟨[1], [], [7], [], []⟩⟩ .direct, .returned 1 .published,
          .invoked 2 .beginShutdown, .returned 2 .ok] ∧
        ∃ r' ∈ (Bus.lts ⟨2, 1, 0, .block⟩).runWhere Lts.Always r.1
          [.invoke 3 (.publishWithResult .background ⟨[2], [], [7], [], []⟩),
            .publishEnter 3 [] [], .invoke 4 (.subscribe [7]), .subscribe 4],
          .returned 3 (.failed .draining) ∈ r'.2 ∧ .returned 4 (.failed .closed) ∈ r'.2)
      (by decide)
  replace hlog : log = _ := hlog
  have hret : .returned 2 .ok ∈ log := by simp [hlog]
  have hsteps := Lts.steps_of_runWhere _ w w' log' hrun
  have hnone : w.NoneInFlight := by
    refine noneInFlight_of_returned hr fun c ev ⟨ctx, ho⟩ => ⟨.published, ?_⟩
    simp only [hlog, List.mem_cons, reduceCtorEq, Obs.invoked.injEq, and_false, false_or,
      List.not_mem_nil, or_false] at ho
    simp [hlog, ho.1]
  exact ⟨log, w, log', w', hr, hsteps, hret, hrefused, hclosed, hnone,
    (shutdown_barrier hr (by simp [hlog]) hret hsteps).2.2 hnone⟩

/-- A publisher has copied the subscribers when `BeginShutdown` is called and returns; then its
    event is put in the queue. -/
theorem barrier_passed :
    ∃ log w log' w', (Bus.lts ⟨2, 1, 0, .block⟩).Reach Lts.Always log w ∧
      .invoked 2 .beginShutdown ∈ log ∧ .returned 2 .ok ∈ log ∧
      (Bus.lts ⟨2, 1, 0, .block⟩).Steps Lts.Always w log' w' ∧
      .put 0 ⟨1, ⟨[1], [], [7], [], []⟩⟩ .direct ∈ log' := by
  obtain ⟨log, w, hr, hcall, hret, ⟨w', log'⟩, hrun, hput⟩ :=
    Lts.reach_of_runWhere (M := Bus.lts ⟨2, 1, 0, .block⟩) (G := Lts.Always) rfl
      (Broker.subscribeRun 0 ++ Broker.publishRun 1 1 [0] ++ beginRun)
      (Q := fun r => .invoked 2 .beginShutdown ∈ r.2 ∧ .returned 2 .ok ∈ r.2 ∧
        ∃ r' ∈ (Bus.lts ⟨2, 1, 0, .block⟩).runWhere Lts.Always r.1 (Broker.giveRun 1),
          .put 0 ⟨1, ⟨[1], [], [7], [], []⟩⟩ .direct ∈ r'.2) (by decide)
  exact ⟨log, w, log', w', hr, hcall, hret, Lts.steps_of_runWhere _ w w' log' hrun, hput⟩

end EventBus
