import EventBus.Spec.BrokerLog
import EventBus.Spec.BrokerChannel

/-!
# Calls of the broker, seen by their callers

A goroutine that has called the broker knows, until the call has returned and ever
after, how far the call can be and what its result means. `Bus.Runs w c op` says this
for call `c` of operation `op`; every step of the bus keeps it.

## Key results

- `Bus.Runs.step`: a step keeps every call within the stages of its operation
- `Bus.Runs.subscribed`, `Bus.Runs.closed`, `Bus.Runs.drained`, `Bus.Runs.begun`:
  what a result means
- `Effect.subscribed`: a subscription is returned by the step that creates it
- `Bus.exists_invoke`: another call can be made
-/

namespace EventBus

variable {r : Ret} {config : Config} {G : Bus → Action → Prop} {log : List Obs} {op : Op}
  {pc : Pc} {ev : Event} {ctx : Ctx} {topic : Bytes} {err : Err}

variable {w w' : Bus} {a : Action} {os : List Obs} {c : CallId} {p : SubPtr}

/-! ## What steps keep -/

/-- A call that has been made stays made. -/
theorem Effect.called (h : Effect w a w' os) (hc : w.calls c ≠ none) : w'.calls c ≠ none := by
  rcases h.cases_call c with ⟨hsame, -⟩ | ⟨op, -, hpc', -⟩ | ⟨pc, pc', w₁, -, -, rfl⟩
  · rw [hsame]
    exact hc
  · rw [hpc']
    exact Option.some_ne_none _
  · rw [Bus.setPc_calls_self]
    exact Option.some_ne_none _

/-- A call that has returned does not move. -/
theorem Effect.returned (h : Effect w a w' os) (hc : w.calls c = some (.returned r)) :
    w'.calls c = some (.returned r) := by
  rcases h.cases_call c with ⟨hsame, -⟩ | ⟨op, hnone, -, -⟩ | ⟨pc, pc', w₁, hpc, hm, -⟩
  · rw [hsame, hc]
  · rw [hnone] at hc
    cases hc
  · rw [hpc, Option.some.injEq] at hc
    exact absurd hc hm.not_returned

/-- The broker does not stop draining. -/
theorem Effect.draining (h : Effect w a w' os) (hd : w.broker.draining = true) :
    w'.broker.draining = true := by
  cases h with
  | @call c _ pc pc' w₁ _ _ hm =>
    show w₁.broker.draining = true
    cases hm with
    | publishCached _ _ _ _ hrem =>
      obtain ⟨-, -, -, -, hdr⟩ := Broker.remember_frame hrem
      rw [Bus.setBroker_broker, hdr, Broker.cacheEvent_draining, hd]
    | publishLeave hrem =>
      obtain ⟨-, -, -, -, hdr⟩ := Broker.remember_frame hrem
      rw [Bus.setBroker_broker, hdr, hd]
    | subscribe _ hnot =>
      rw [hnot] at hd
      cases hd
    | beginShutdown => rfl
    | @closeDeregister s sub =>
      simp only [Bus.setBroker_broker, Broker.deregister]
      split
      · exact hd
      · split <;> exact hd
    | _ => exact hd
  | _ => exact hd

/-- The step that makes a call return a subscription creates that subscription. -/
theorem Effect.subscribed (h : Effect w a w' os)
    (hc : w'.calls c = some (.returned (.subscribed p))) :
    w.calls c = some (.returned (.subscribed p)) ∨
      (p = w.subs.length ∧ p < w'.subs.length ∧ a = .subscribe c ∧
        w.broker.draining = false) := by
  rcases h.cases_call c with ⟨hsame, -⟩ | ⟨op, -, hpc', -⟩ | ⟨pc, pc', w₁, hpc, hm, rfl⟩
  · rw [hsame] at hc
    exact .inl hc
  · rw [hpc', Option.some.injEq] at hc
    exact absurd hc (Op.start_ne_returned op _)
  · rw [Bus.setPc_calls_self, Option.some.injEq] at hc
    subst hc
    generalize hpc' : Pc.returned (.subscribed p) = pc' at hm
    cases hm with
    | quiet hq =>
      cases hq with
      | @closeOnceAfter _ _ rest => cases rest <;> exact nomatch hpc'
      | @closeWait _ drain => cases drain <;> exact nomatch hpc'
      | _ => cases hpc'
    | subscribe _ hdraining =>
      rw [Pc.returned.injEq, Ret.subscribed.injEq] at hpc'
      subst hpc'
      refine .inr ⟨rfl, ?_, rfl, hdraining⟩
      rw [Bus.setPc_subs, List.length_append]
      exact Nat.lt_succ_self _
    | @closeBroker order => cases order <;> exact nomatch hpc'
    | @closeEvents _ rest => cases rest <;> exact nomatch hpc'
    | _ => cases hpc'

/-- A subscription that has been returned exists. -/
theorem subscribed_alloc (h : (Bus.lts config).Reach G log w)
    (hc : w.calls c = some (.returned (.subscribed p))) :
    p < w.subs.length := by
  have hall : ∀ c p, w.calls c = some (.returned (.subscribed p)) → p < w.subs.length := by
    refine h.invariant
      (P := fun _ w => ∀ c p, w.calls c = some (.returned (.subscribed p)) → p < w.subs.length)
      ?_ ?_
    · rintro _ rfl c p hc
      cases hc
    · intro log w a w' os hinv _ hstep c p hc
      rcases (step_effect hstep).subscribed hc with hold | ⟨-, hlt, -⟩
      · exact (step_effect hstep).alloc (hinv c p hold)
      · exact hlt
  exact hall c p hc

/-! ## The stages of an operation -/

/-- The program counters of a call that closes `p` with its events kept. -/
inductive CloseStage (w : Bus) (p : SubPtr) : Pc → Prop
  | deregister : CloseStage w p (.closeSubscription p)
  | once : CloseStage w p (.closeOnce p true [])
  | mark : CloseStage w p (.closeMark p true [])
  | wait : CloseStage w p (.closeWait p true [])
  | events : CloseStage w p (.closeEvents p [])
  | returned {sub : Subscription} : w.subs[p]? = some sub → sub.events.closed = true →
      CloseStage w p (.returned .ok)

/-- The program counters of a call of an operation, with what is known there. -/
inductive Op.Stage (w : Bus) : Op → Pc → Prop
  | publish {ctx : Ctx} {ev : Event} {pc : Pc} : pc.event = some ev →
      Op.Stage w (.publishWithResult ctx ev) pc
  | published {ctx : Ctx} {ev : Event} :
      Op.Stage w (.publishWithResult ctx ev) (.returned .published)
  | duplicate {ctx : Ctx} {ev : Event} :
      Op.Stage w (.publishWithResult ctx ev) (.returned .duplicate)
  | publishFailed {ctx : Ctx} {ev : Event} {err : Err} :
      Op.Stage w (.publishWithResult ctx ev) (.returned (.failed err))
  | subscribe {topic : Bytes} : Op.Stage w (.subscribe topic) (.subscribe topic)
  | subscribed {topic : Bytes} {p : SubPtr} {sub : Subscription} : w.subs[p]? = some sub →
      sub.topic = topic → Op.Stage w (.subscribe topic) (.returned (.subscribed p))
  | subscribeFailed {topic : Bytes} {err : Err} :
      Op.Stage w (.subscribe topic) (.returned (.failed err))
  | beginShutdown : Op.Stage w .beginShutdown .beginShutdown
  | begun : w.broker.draining = true → Op.Stage w .beginShutdown (.returned .ok)
  | drain {ctx : Ctx} {p : SubPtr} : Op.Stage w (.drain ctx p) (.drain p)
  | drainWait {ctx : Ctx} {p : SubPtr} : Op.Stage w (.drain ctx p) (.drainWait p)
  | drainFailed {ctx : Ctx} {p : SubPtr} {err : Err} :
      Op.Stage w (.drain ctx p) (.returned (.failed err))
  | drainClose {ctx : Ctx} {p : SubPtr} {pc : Pc} : CloseStage w p pc →
      Op.Stage w (.drain ctx p) pc
  | close {p : SubPtr} {pc : Pc} : CloseStage w p pc → Op.Stage w (.closeSubscription p) pc
  | closeBroker {pc : Pc} : Op.Stage w .closeBroker pc
  | panicked {op : Op} : Op.Stage w op .panicked

/-- Call `c` was made for `op`. -/
def Bus.Runs (w : Bus) (c : CallId) (op : Op) : Prop := ∃ pc, w.calls c = some pc ∧ op.Stage w pc

/-- A call starts in the first stage of its operation. -/
theorem Op.stage_start (w : Bus) (op : Op) : op.Stage w op.start := by
  cases op with
  | publishWithResult => exact .publish rfl
  | subscribe => exact .subscribe
  | beginShutdown => exact .beginShutdown
  | drain => exact .drain
  | closeSubscription => exact .close .deregister
  | closeBroker => exact .closeBroker

/-- What `invoke` does. -/
theorem Bus.step_invoke (h : w.step (.invoke c op) = some (w', os)) :
    w.calls c = none ∧ w'.calls = Function.update w.calls c (some op.start) ∧
      w'.subs = w.subs ∧ w'.broker = w.broker ∧ os = [.invoked c op] := by
  simp only [Bus.step, Bus.invoke] at h
  split at h
  · rename_i hnone
    cases h
    exact ⟨hnone, rfl, rfl, rfl, rfl⟩
  · cases h

theorem Bus.runs_invoke (h : w.step (.invoke c op) = some (w', os)) : w'.Runs c op := by
  obtain ⟨-, hcalls, -⟩ := Bus.step_invoke h
  exact ⟨op.start, by rw [hcalls, Function.update_self], op.stage_start w'⟩

/-- What is known in a stage is not undone by a step. -/
theorem CloseStage.mono (h : Effect w a w' os) (hst : CloseStage w p pc) :
    CloseStage w' p pc := by
  cases hst with
  | returned hs hcl =>
    obtain ⟨sub', hs', hl⟩ := h.later p _ hs
    exact .returned hs' (hl.ended hcl)
  | deregister => exact .deregister
  | once => exact .once
  | mark => exact .mark
  | wait => exact .wait
  | events => exact .events

theorem Op.Stage.mono (h : Effect w a w' os) (hst : op.Stage w pc) :
    op.Stage w' pc := by
  cases hst with
  | publish hev => exact .publish hev
  | published => exact .published
  | duplicate => exact .duplicate
  | publishFailed => exact .publishFailed
  | subscribe => exact .subscribe
  | subscribed hs htopic =>
    obtain ⟨sub', hs', hl⟩ := h.later _ _ hs
    exact .subscribed hs' (hl.topic.trans htopic)
  | subscribeFailed => exact .subscribeFailed
  | beginShutdown => exact .beginShutdown
  | begun hd => exact .begun (h.draining hd)
  | drain => exact .drain
  | drainWait => exact .drainWait
  | drainFailed => exact .drainFailed
  | drainClose hc => exact .drainClose (hc.mono h)
  | close hc => exact .close (hc.mono h)
  | closeBroker => exact .closeBroker
  | panicked => exact .panicked

section Move

variable {w₁ : Bus} {pc' : Pc}

/-- A publisher goes on with its event, or returns. -/
private theorem publish_move (hm : Move w c a pc pc' w₁ os) (hev : pc.event = some ev) :
    Op.Stage (w₁.setPc c pc') (.publishWithResult ctx ev) pc' := by
  cases hm with
  | quiet hq =>
    cases hq with
    | publishClosed | publishDraining | enqueueClosed => exact .publishFailed
    | publishDuplicate => exact .duplicate
    | enqueueCheckDone | enqueueCheckOpen | enqueueCtx | enqueueDone | enqueueFull =>
      exact .publish hev
    | _ => cases hev
  | publishCached | publishLeave => exact .published
  | publishSnapshot | enqueueEnter | enqueueSend | enqueueReturn => exact .publish hev
  | enqueueFail => exact .publishFailed
  | enqueuePanic => exact .panicked
  | _ => cases hev

/-- A call that closes `p` goes on to the next stage. -/
private theorem close_move (hm : Move w c a pc pc' w₁ os) (hst : CloseStage w p pc)
    (hinv : ∀ p sub, w.subs[p]? = some sub → w.SubInv p sub) :
    CloseStage (w₁.setPc c pc') p pc' ∨ pc' = .panicked := by
  cases hst with
  | deregister =>
    cases hm with
    | quiet hq => cases hq
    | closeDeregister => exact .inl .once
  | once =>
    cases hm with
    | quiet hq =>
      cases hq with
      | closeOnceAfter hs hfin => exact .inl (.returned hs ((hinv _ _ hs).ended.mpr hfin))
    | closeOnce => exact .inl .mark
  | mark =>
    cases hm with
    | quiet hq => cases hq
    | closeMark => exact .inl .wait
    | closeMarkPanic => exact .inr rfl
  | wait =>
    cases hm with
    | quiet hq =>
      cases hq with
      | closeWait => exact .inl .events
  | events =>
    cases hm with
    | quiet hq => cases hq
    | closeEvents hs hclose =>
      obtain ⟨-, -, -, hcl⟩ := Chan.close_done hclose
      exact .inl (.returned (List.getElem?_set_of_eq_some hs) hcl)
    | closeEventsPanic => exact .inr rfl
  | returned => exact absurd rfl hm.not_returned

private theorem Op.Stage.move (hm : Move w c a pc pc' w₁ os) (hst : op.Stage w pc)
    (hinv : ∀ p sub, w.subs[p]? = some sub → w.SubInv p sub) :
    op.Stage (w₁.setPc c pc') pc' := by
  cases hst with
  | publish hev => exact publish_move hm hev
  | subscribe =>
    cases hm with
    | quiet hq => cases hq with | subscribeRefused => exact .subscribeFailed
    | subscribe => exact .subscribed List.getElem?_concat_length rfl
  | beginShutdown =>
    cases hm with
    | quiet hq => cases hq
    | beginShutdown => exact .begun rfl
  | drain =>
    cases hm with
    | quiet hq =>
      cases hq with
      | drainEmpty => exact .drainClose .deregister
      | drainBusy => exact .drainWait
  | drainWait =>
    cases hm with
    | quiet hq =>
      cases hq with
      | drainTick => exact .drain
      | drainCtx => exact .drainFailed
  | drainClose hc =>
    rcases close_move hm hc hinv with hc' | rfl
    · exact .drainClose hc'
    · exact .panicked
  | close hc =>
    rcases close_move hm hc hinv with hc' | rfl
    · exact .close hc'
    · exact .panicked
  | closeBroker => exact .closeBroker
  | panicked =>
    cases hm with
    | quiet hq => cases hq
  | _ => exact absurd rfl hm.not_returned

end Move

/-- A step keeps every call within the stages of its operation. -/
theorem Bus.Runs.step (hr : w.Runs c op) (h : Effect w a w' os)
    (hinv : ∀ p sub, w.subs[p]? = some sub → w.SubInv p sub) : w'.Runs c op := by
  obtain ⟨pc, hpc, hst⟩ := hr
  rcases h.cases_call c with ⟨hsame, -⟩ | ⟨op', hnone, -⟩ | ⟨pc₀, pc', w₁, hpc₀, hm, rfl⟩
  · exact ⟨pc, hsame.trans hpc, hst.mono h⟩
  · rw [hnone] at hpc
    cases hpc
  · rw [hpc, Option.some.injEq] at hpc₀
    subst hpc₀
    exact ⟨pc', Bus.setPc_calls_self _ _ _, hst.move hm hinv⟩

/-- Every call that was made is within the stages of its operation. -/
theorem runs_of_invoked (h : (Bus.lts config).Reach G log w) (ho : .invoked c op ∈ log) :
    w.Runs c op := by
  refine h.induct_reach (P := fun log w => .invoked c op ∈ log → w.Runs c op) (by simp) ?_ ho
  intro log w a w' os hr ih _ hstep ho
  have heff := step_effect hstep
  rcases List.mem_append.mp ho with hold | hnew
  · exact (ih hold).step heff fun p sub => sub_inv hr
  · obtain rfl := heff.invoked_mem hnew
    exact Bus.runs_invoke hstep

/-! ## What a result means -/

/-- The stage of a call that has returned. -/
private theorem Bus.Runs.stage_returned (h : w.Runs c op) (hc : w.calls c = some (.returned r)) :
    op.Stage w (.returned r) := by
  obtain ⟨pc, hpc, hst⟩ := h
  rw [hpc, Option.some.injEq] at hc
  exact hc ▸ hst

/-- `PublishWithResult` returns a result or an error. -/
theorem Bus.Runs.published (h : w.Runs c (.publishWithResult ctx ev))
    (hc : w.calls c = some (.returned r)) :
    r = .published ∨ r = .duplicate ∨ ∃ err, r = .failed err := by
  cases h.stage_returned hc with
  | publish hev => cases hev
  | published => exact .inl rfl
  | duplicate => exact .inr (.inl rfl)
  | publishFailed => exact .inr (.inr ⟨_, rfl⟩)

/-- `Subscribe` returns a subscription to the topic. -/
theorem Bus.Runs.subscribed (h : w.Runs c (.subscribe topic))
    (hc : w.calls c = some (.returned (.subscribed p))) :
    ∃ sub, w.subs[p]? = some sub ∧ sub.topic = topic := by
  cases h.stage_returned hc with
  | subscribed hs htopic => exact ⟨_, hs, htopic⟩

/-- `Subscribe` returns a subscription or an error. -/
theorem Bus.Runs.subscribe_returned (h : w.Runs c (.subscribe topic))
    (hc : w.calls c = some (.returned r)) :
    (∃ p, r = .subscribed p) ∨ ∃ err, r = .failed err := by
  cases h.stage_returned hc with
  | subscribed => exact .inl ⟨_, rfl⟩
  | subscribeFailed => exact .inr ⟨_, rfl⟩

/-- After `BeginShutdown` the broker drains. -/
theorem Bus.Runs.begun (h : w.Runs c .beginShutdown) (hc : w.calls c = some (.returned r)) :
    w.broker.draining = true := by
  cases h.stage_returned hc with
  | begun hd => exact hd

/-- `Subscribe` fails in its critical section, if the broker is closed or draining. -/
theorem Effect.subscribe_failed (h : Effect w a w' os) (hr : w.Runs c (.subscribe topic))
    (hc : w'.calls c = some (.returned (.failed err))) :
    w.calls c = some (.returned (.failed err)) ∨
      (a = .subscribe c ∧ (w.broker.closed = true ∨ w.broker.draining = true)) := by
  obtain ⟨pc₀, hpc₀, hst⟩ := hr
  rcases h.cases_call c with ⟨hsame, -⟩ | ⟨op, hnone, -⟩ | ⟨pc, pc', w₁, hpc, hm, rfl⟩
  · exact .inl (hsame ▸ hc)
  · rw [hnone] at hpc₀
    cases hpc₀
  · rw [hpc, Option.some.injEq] at hpc₀
    subst hpc₀
    rw [Bus.setPc_calls_self, Option.some.injEq] at hc
    subst hc
    cases hst with
    | subscribe =>
      cases hm with
      | quiet hq =>
        cases hq with
        | subscribeRefused href => exact .inr ⟨rfl, href⟩
    | subscribed | subscribeFailed | panicked =>
      cases hm with
      | quiet hq => cases hq

/-- `Drain` fails when it finds its context done. -/
theorem Effect.drain_failed (h : Effect w a w' os) (hr : w.Runs c (.drain ctx p))
    (hc : w'.calls c = some (.returned (.failed err))) :
    w.calls c = some (.returned (.failed err)) ∨ a = .drainCtx c := by
  obtain ⟨pc₀, hpc₀, hst⟩ := hr
  rcases h.cases_call c with ⟨hsame, -⟩ | ⟨op, hnone, -⟩ | ⟨pc, pc', w₁, hpc, hm, rfl⟩
  · exact .inl (hsame ▸ hc)
  · rw [hnone] at hpc₀
    cases hpc₀
  · rw [hpc, Option.some.injEq] at hpc₀
    subst hpc₀
    rw [Bus.setPc_calls_self, Option.some.injEq] at hc
    generalize hret : Pc.returned (.failed err) = pc₁ at hc
    subst hc
    cases hst with
    | drainWait =>
      cases hm with
      | quiet hq =>
        cases hq with
        | drainCtx => exact .inr rfl
        | drainTick => cases hret
    | drain | drainFailed | panicked =>
      cases hm with
      | quiet hq => cases hq <;> exact nomatch hret
    | drainClose hclose =>
      cases hclose <;> cases hm with
      | quiet hq => cases hq <;> exact nomatch hret
      | _ => cases hret

private theorem CloseStage.closed (h : CloseStage w p (.returned r)) :
    ∃ sub, w.subs[p]? = some sub ∧ sub.events.closed = true := by
  cases h with
  | returned hs hcl => exact ⟨_, hs, hcl⟩

/-- After `Subscription.Close` the channel is closed. -/
theorem Bus.Runs.closed (h : w.Runs c (.closeSubscription p))
    (hc : w.calls c = some (.returned r)) :
    ∃ sub, w.subs[p]? = some sub ∧ sub.events.closed = true := by
  cases h.stage_returned hc with
  | close hst => exact hst.closed

/-- After a `Drain` that did not fail the channel is closed. -/
theorem Bus.Runs.drained (h : w.Runs c (.drain ctx p)) (hc : w.calls c = some (.returned r))
    (hr : ∀ err, r ≠ .failed err) :
    ∃ sub, w.subs[p]? = some sub ∧ sub.events.closed = true := by
  cases h.stage_returned hc with
  | drainFailed => exact absurd rfl (hr _)
  | drainClose hst => exact hst.closed

/-! ## New calls -/

/-- There is a call that has not been made. -/
theorem Bus.exists_unused (h : (Bus.lts config).Reach Lts.Always log w) :
    ∃ c, w.calls c = none := by
  -- from some number on no call has been made
  suffices ∃ n : Nat, ∀ c : CallId, n ≤ c → w.calls c = none by
    obtain ⟨n, hn⟩ := this
    exact ⟨n, hn n (Nat.le_refl n)⟩
  refine h.invariant (P := fun _ w => ∃ n : Nat, ∀ c : CallId, n ≤ c → w.calls c = none) ?_ ?_
  · rintro _ rfl
    exact ⟨0, fun _ _ => rfl⟩
  · intro log w a w' os ⟨n, hn⟩ _ hs
    cases step_effect hs with
    | @invoke c op =>
      refine ⟨max n (c + 1), fun d hd => ?_⟩
      have hne : d ≠ c := Nat.ne_of_gt (Nat.lt_of_lt_of_le (Nat.lt_succ_self c)
        (Nat.le_trans (Nat.le_max_right _ _) hd))
      show (w.setPc c op.start).calls d = none
      rw [Bus.setPc_calls_of_ne _ _ hne]
      exact hn d (Nat.le_trans (Nat.le_max_left _ _) hd)
    | @call c _ pc pc' w₁ _ hpc hm =>
      refine ⟨n, fun d hd => ?_⟩
      have hne : d ≠ c := by
        rintro rfl
        exact nomatch (hn d hd).symm.trans hpc
      rw [Bus.setPc_calls_of_ne _ _ hne, hm.calls_eq]
      exact hn d hd
    | cancel | receive | receiveEnd => exact ⟨n, hn⟩

theorem Bus.exists_invoke (h : (Bus.lts config).Reach Lts.Always log w) :
    ∃ c, ∀ op, ∃ w', w.step (.invoke c op) = some (w', [.invoked c op]) := by
  obtain ⟨c, hc⟩ := Bus.exists_unused h
  exact ⟨c, fun op => by simp [Bus.step, Bus.invoke, hc]⟩

end EventBus
