import EventBus.Spec.BrokerFanOut

/-!
# Publish order

An event reaches a queue by the cache replay of `Subscribe` or by `enqueue`. On either
way it cannot overtake the event of a call that had returned before its own call was
invoked: a publisher appends to the topic cache or to a queue while it is running, so
that whatever it finds there belongs to calls invoked before it returns, and replay
keeps the order of the cache.

## Key results

- `order_inv`: caches and queues never hold an overtaken event
- `publish_order`: events of consecutive calls are put in, taken from and received from
  a queue in the order of the calls
-/

namespace EventBus

/-- Call `c` returned before call `d` was invoked. -/
def Before (log : List Obs) (c d : CallId) : Prop :=
  ∃ r op, log.Precedes (.returned c r) (.invoked d op)

/-- The second copy does not belong to a call that returned before the call of the first
    was invoked. -/
def InOrder (log : List Obs) (x y : Copy) : Prop := ¬Before log y.call x.call

/-- No cache and no queue has ever held an overtaken event. -/
structure OrderInv (log : List Obs) (w : Bus) : Prop where
  cached : ∀ t, (w.broker.cached t).Pairwise (InOrder log)
  given : ∀ p, (given log p).Pairwise (InOrder log)

section Order

variable {log os : List Obs} {w w' : Bus} {a : Action} {c d : CallId}

/-- A new pair of consecutive calls has a second call that was just invoked. -/
theorem before_append (h : Before (log ++ os) c d) :
    Before log c d ∨ ∃ op, .invoked d op ∈ os := by
  obtain ⟨r, op, hprec⟩ := h
  rcases List.precedes_append.mp hprec with hold | hnew | ⟨-, ho⟩
  · exact .inl ⟨r, op, hold⟩
  · exact .inr ⟨op, hnew.mem_right⟩
  · exact .inr ⟨op, ho⟩

/-- Later steps do not put in-order copies of invoked calls out of order. -/
private theorem inOrder_step (h : Effect w a w' os) (hlog : LogInv log w) {x y : Copy}
    (hx : PublishedBy log x.call x.event) (hxy : InOrder log x y) : InOrder (log ++ os) x y := by
  intro hbefore
  rcases before_append hbefore with hold | ⟨op, ho⟩
  · exact hxy hold
  · obtain ⟨ctx, hinv⟩ := hx
    exact not_invoked_again h (hlog.invoked _ _ hinv) op ho

/-- A copy of a call that has not returned may follow any copy. -/
private theorem inOrder_running (h : Effect w a w' os) (hlog : LogInv log w) {x y : Copy}
    (hx : PublishedBy log x.call x.event) {pc : Pc} (hpc : w.calls y.call = some pc)
    (hrun : ∀ r, pc ≠ .returned r) : InOrder (log ++ os) x y := by
  refine inOrder_step h hlog hx ?_
  rintro ⟨r, op, hprec⟩
  rw [(hlog.returned _ r).mp hprec.mem_left] at hpc
  exact hrun r (Option.some.inj hpc).symm

/-- What a step gives to a queue: nothing, the front of a topic's cache to a new queue, or
    the event of a running publisher. -/
private theorem Effect.given_cases (h : Effect w a w' os) (p : SubPtr) :
    given os p = [] ∨ (p = w.subs.length ∧ ∃ topic, given os p = w.replayed topic) ∨
      ∃ c ev todo, w.calls c = some (.enqueueSelect ev p todo) ∧ given os p = [⟨c, ev⟩] := by
  cases h with
  | @call c _ _ _ _ _ hpc hm =>
    cases hm with
    | @enqueueSend ev s todo =>
      by_cases hp : s = p
      · subst hp
        exact .inr (.inr ⟨c, ev, todo, hpc, by simp [given]⟩)
      · exact .inl (by simp [given, hp])
    | @subscribe topic =>
      by_cases hp : p = w.subs.length
      · subst hp
        exact .inr (.inl ⟨rfl, topic, by simp [given, List.filterMap_map]⟩)
      · exact .inl (by simp [given, List.filterMap_map, Ne.symm hp])
    | _ => exact .inl (given_eq_nil (by simp))
  | _ => exact .inl (given_eq_nil (by simp))

/-- Every step keeps caches and queues in order. -/
theorem order_step (h : Effect w a w' os) (hlog : LogInv log w) (hinv : OrderInv log w) :
    OrderInv (log ++ os) w' where
  cached t := by
    have hold : (w.broker.cached t).Pairwise (InOrder (log ++ os)) :=
      (hinv.cached t).imp_of_mem fun hx _ hxy => inOrder_step h hlog (hlog.cached t _ hx).2 hxy
    rcases h.cached_cases t with hsub | ⟨c, ev, older, hpc, -, -, hsub, heq⟩
    · exact hold.sublist hsub
    · rw [heq, List.pairwise_append]
      refine ⟨hold.sublist hsub, List.pairwise_singleton _ _, fun x hx y hy => ?_⟩
      obtain rfl := List.mem_singleton.mp hy
      exact inOrder_running h hlog (hlog.cached t x (hsub.subset hx)).2 hpc (by simp)
  given p := by
    have horigin : ∀ x ∈ given log p, PublishedBy log x.call x.event := fun x hx => by
      obtain ⟨route, ho⟩ := mem_given.mp hx
      exact (hlog.put p x route ho).1
    have hold : (given log p).Pairwise (InOrder (log ++ os)) :=
      (hinv.given p).imp_of_mem fun hx _ hxy => inOrder_step h hlog (horigin _ hx) hxy
    rw [given_append]
    rcases h.given_cases p with hnil | ⟨rfl, topic, heq⟩ | ⟨c, ev, todo, hpc, heq⟩
    · rwa [hnil, List.append_nil]
    · -- a subscription that does not exist yet has been given nothing
      have hnew : given log w.subs.length = [] := given_eq_nil fun x route ho => by
        obtain ⟨-, sub, hs, -⟩ := hlog.put _ x route ho
        simp at hs
      rw [hnew, List.nil_append, heq]
      refine List.Pairwise.sublist (List.take_sublist _ _) ?_
      exact (hinv.cached topic).imp_of_mem fun hx _ hxy =>
        inOrder_step h hlog (hlog.cached topic _ hx).2 hxy
    · rw [heq, List.pairwise_append]
      refine ⟨hold, List.pairwise_singleton _ _, fun x hx y hy => ?_⟩
      obtain rfl := List.mem_singleton.mp hy
      exact inOrder_running h hlog (horigin x hx) hpc (by simp)

end Order

section Runs

variable {config : Config} {G : Bus → Action → Prop} {log : List Obs} {w : Bus}

/-- Caches and queues are in order at the end of every run. -/
theorem order_inv (h : (Bus.lts config).Reach G log w) : OrderInv log w := by
  refine h.induct_reach (P := OrderInv) ?_ ?_
  · rintro _ rfl
    exact ⟨fun _ => .nil, fun _ => .nil⟩
  · exact fun log w a w' os hr hinv _ hstep => order_step (step_effect hstep) (log_inv hr) hinv

/-- No call is invoked after it has returned. -/
theorem not_before_self (h : (Bus.lts config).Reach G log w) (c : CallId) : ¬Before log c c := by
  rintro ⟨r, op, hprec⟩
  refine h.not_precedes (Q := fun w => w.calls c ≠ none) ?_ ?_ hprec
  · intro log w hr ho
    simp [((log_inv hr).returned c r).mp ho]
  · intro log w a w' os _ hstep ho
    rcases (step_effect hstep).cases_call c with
      ⟨-, hnot⟩ | ⟨op', hnone, -, rfl⟩ | ⟨pc, pc', w₁, -, hm, -⟩
    · exact absurd rfl (hnot _ ho)
    · exact ⟨by simp [hnone], by simp⟩
    · exact absurd ho hm.not_invoked

end Runs

/-- In `l`, every copy of call `c` stands before every copy of call `d`. -/
def ComesFirst (l : List Copy) (c d : CallId) : Prop :=
  ∀ (i j : Nat) (x y : Copy), l[i]? = some x → l[j]? = some y → x.call = c → y.call = d → i < j

private theorem comesFirst_of_pairwise {log : List Obs} {l : List Copy} {c d : CallId}
    (hl : l.Pairwise (InOrder log)) (hcd : Before log c d) (hne : c ≠ d) : ComesFirst l c d := by
  rintro i j x y hx hy rfl rfl
  by_contra hle
  rcases Nat.lt_or_eq_of_le (Nat.le_of_not_lt hle) with hlt | rfl
  · obtain ⟨hi, rfl⟩ := List.getElem?_eq_some_iff.mp hx
    obtain ⟨hj, rfl⟩ := List.getElem?_eq_some_iff.mp hy
    exact List.pairwise_iff_getElem.mp hl j i hj hi hlt hcd
  · rw [hx] at hy
    exact hne (congrArg Copy.call (Option.some.inj hy))

/-- Per-subscription publish order. In every run, for any two calls of which the first
    returned, with any result, before the second was invoked: whenever a queue was given the
    events of both, by replay or by `enqueue`, that of the first was put in before that of
    the second, and it leaves the queue and is received before it. -/
theorem publish_order {config : Config} {log : List Obs} {w : Bus}
    (h : (Bus.lts config).Reach Lts.Always log w) {c d : CallId} {r : Ret} {op : Op}
    (hcd : log.Precedes (.returned c r) (.invoked d op)) (p : SubPtr) :
    ComesFirst (given log p) c d ∧ given log p = taken log p ++ w.queue p ∧
      ComesFirst (taken log p) c d ∧ ComesFirst (receivedFrom log p) c d := by
  have hbefore : Before log c d := ⟨r, op, hcd⟩
  have hne : c ≠ d := by
    rintro rfl
    exact not_before_self h c hbefore
  have hgiven := (order_inv h).given p
  have htaken : (taken log p).Pairwise (InOrder log) :=
    hgiven.sublist (by rw [given_eq h p]; exact List.sublist_append_left _ _)
  exact ⟨comesFirst_of_pairwise hgiven hbefore hne, given_eq h p,
    comesFirst_of_pairwise htaken hbefore hne,
    comesFirst_of_pairwise (htaken.sublist (receivedFrom_sublist log p)) hbefore hne⟩

/-- One event reaches the queue by replay and the next one by `enqueue`. -/
theorem publish_order_replay_then_direct :
    ∃ log w, (Bus.lts ⟨2, 1, 0, .block⟩).Reach Lts.Always log w ∧
      given log 0 = [⟨0, ⟨[1], [], [7], [], []⟩⟩, ⟨2, ⟨[2], [], [7], [], []⟩⟩] ∧
      ComesFirst (given log 0) 0 2 := by
  obtain ⟨log, w, hr, hgiven, hret, hinv⟩ :=
    Lts.reach_of_runWhere (M := Bus.lts ⟨2, 1, 0, .block⟩) (G := Lts.Always) rfl
      (Broker.publishRun 0 1 [] ++ Broker.subscribeRun 1 ++ Broker.publishRun 2 2 [0] ++
        Broker.giveRun 2)
      (Q := fun r => given r.2 0 = [⟨0, ⟨[1], [], [7], [], []⟩⟩, ⟨2, ⟨[2], [], [7], [], []⟩⟩] ∧
        .returned 0 .published ∈ r.2.take 4 ∧
        .invoked 2 (.publishWithResult .background ⟨[2], [], [7], [], []⟩) ∈ r.2.drop 4)
      (by decide)
  have hprec : log.Precedes (.returned 0 .published)
      (.invoked 2 (.publishWithResult .background ⟨[2], [], [7], [], []⟩)) :=
    ⟨log.take 4, log.drop 4, (List.take_append_drop 4 log).symm, hret, hinv⟩
  exact ⟨log, w, hr, hgiven, (publish_order hr hprec 0).1⟩

end EventBus
