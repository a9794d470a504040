import EventBus.Spec.BrokerCalls
import EventBus.Spec.BrokerState

/-!
# Who gets an event

Which subscriptions a published event goes to, told by the calls of the API alone: when
they were made and when they returned. A subscription is in the registry from the return of
its `Subscribe` until a call that closes it takes it out, and such a call was made before.
`PublishWithResult` reads the registry once, between its start and its return, so it sends to
every subscription that was made before it started and that nobody had begun to close when it
returned, and to none that was closed when it started.

## Key results

- `member_inv`: a subscription is registered until a call that closes it has been made
- `published_to_members`: who gets an event, and who does not
-/

namespace EventBus

variable {pc : Pc} {log log₁ log₂ os : List Obs} {p : SubPtr} {G : Bus → Action → Prop}
  {w₁ w' w : Bus} {op : Op} {a : Action} {x : Copy} {route : Route} {config : Config}
  {sub : Subscription}

/-! ## Entries that stay -/

namespace Broker

variable {b : Broker} {topic topic' : Bytes} {id i : UInt64} {q : SubPtr}

/-- `register` makes an entry. -/
theorem entryAt_register_self : (b.register topic id q).EntryAt topic id q :=
  ⟨_, AList.lookup_insert _, AList.lookup_insert _⟩

/-- `register` keeps the entries under another topic or another id. -/
theorem entryAt_register_of_ne (h : b.EntryAt topic' i p) (hne : i ≠ id) :
    (b.register topic id q).EntryAt topic' i p := by
  obtain ⟨m, hm, hp⟩ := h
  by_cases ht : topic' = topic
  · subst ht
    refine ⟨m.insert id q, ?_, by rw [AList.lookup_insert_ne hne, hp]⟩
    simp [register, hm]
  · exact ⟨m, by simp [register, AList.lookup_insert_ne ht, hm], hp⟩

/-- `deregister` keeps the entries under another topic or another id. -/
theorem entryAt_deregister_of_ne (h : b.EntryAt topic' i p) (hne : i ≠ id) :
    (b.deregister topic id).EntryAt topic' i p := by
  obtain ⟨m, hm, hp⟩ := h
  by_cases ht : topic' = topic
  · subst ht
    have hp' : (m.erase id).lookup i = some p := by rw [AList.lookup_erase_ne hne, hp]
    -- the topic is not left empty, since `i` is still there
    have hfull : (m.erase id).entries.isEmpty = false := by
      have hmem : ⟨i, p⟩ ∈ (m.erase id).entries := AList.mem_lookup_iff.mp hp'
      cases hl : (m.erase id).entries with
      | nil => simp [hl] at hmem
      | cons => rfl
    exact ⟨m.erase id, by simp [deregister, hm, hfull], hp'⟩
  · refine ⟨m, ?_, hp⟩
    simp only [deregister]
    split
    · exact hm
    · split
      · rw [AList.lookup_erase_ne ht, hm]
      · rw [AList.lookup_insert_ne ht, hm]

end Broker

/-! ## Calls that close -/

/-- A call of the operation may take `p` out of the registry. -/
def Op.closes (p : SubPtr) : Op → Bool
  | .closeSubscription q | .drain _ q => q = p
  | .closeBroker => true
  | _ => false

section Calls

variable {log' : List Obs} {c : CallId}

/-- Every call was made for some operation. -/
theorem exists_invoked (h : (Bus.lts config).Reach G log w) (hpc : w.calls c = some pc) :
    ∃ op, .invoked c op ∈ log := by
  have hall : w.calls c ≠ none → ∃ op, .invoked c op ∈ log := by
    refine h.invariant (P := fun log w => w.calls c ≠ none → ∃ op, .invoked c op ∈ log) ?_ ?_
    · rintro _ rfl hc
      exact absurd rfl hc
    intro log w a w' os ih _ hstep hc
    rcases (step_effect hstep).cases_call c with ⟨hsame, -⟩ | ⟨op, -, -, rfl⟩ |
      ⟨pc, pc', w₁, hpc, -, -⟩
    · obtain ⟨op, ho⟩ := ih (hsame ▸ hc)
      exact ⟨op, List.mem_append_left _ ho⟩
    · exact ⟨op, by simp⟩
    · obtain ⟨op, ho⟩ := ih (by simp [hpc])
      exact ⟨op, List.mem_append_left _ ho⟩
  exact hall (by simp [hpc])

/-- A call that has been made is not made again. -/
theorem not_invoked_later (h : (Bus.lts config).Steps G w log' w') (hc : w.calls c ≠ none)
    (op : Op) : .invoked c op ∉ log' := by
  have hrun := h.invariant (P := fun log w => w.calls c ≠ none ∧ .invoked c op ∉ log)
    ⟨hc, List.not_mem_nil⟩ ?_
  · exact hrun.2
  rintro log w a w' os ⟨hc, hnot⟩ - hstep
  have heff := step_effect hstep
  refine ⟨heff.called hc, fun ho => ?_⟩
  rcases List.mem_append.mp ho with hold | hnew
  · exact hnot hold
  · exact not_invoked_again heff hc op hnew

/-- Where a call is, it runs an operation that it was made for. -/
theorem exists_stage (h : (Bus.lts config).Reach G log w) (hpc : w.calls c = some pc) :
    ∃ op, .invoked c op ∈ log ∧ Op.Stage w op pc := by
  obtain ⟨op, ho⟩ := exists_invoked h hpc
  obtain ⟨pc', hpc', hst⟩ := runs_of_invoked h ho
  obtain rfl := Option.some.inj (hpc.symm.trans hpc')
  exact ⟨op, ho, hst⟩

/-- Only a call that closes `p` gets to the critical section of `p.Close`. -/
theorem closes_of_closeSubscription (h : (Bus.lts config).Reach G log w)
    (hpc : w.calls c = some (.closeSubscription p)) :
    ∃ op, .invoked c op ∈ log ∧ op.closes p = true := by
  obtain ⟨op, ho, hst⟩ := exists_stage h hpc
  refine ⟨op, ho, ?_⟩
  cases hst with
  | drainClose hclose | close hclose =>
    cases hclose with
    | deregister => simp [Op.closes]
  | closeBroker => rfl
  | publish hev => cases hev

/-- Only a call of `Broker.Close` gets to its critical section. -/
theorem closes_of_closeBroker (h : (Bus.lts config).Reach G log w)
    (hpc : w.calls c = some .closeBroker) (p : SubPtr) :
    ∃ op, .invoked c op ∈ log ∧ op.closes p = true := by
  obtain ⟨op, ho, hst⟩ := exists_stage h hpc
  refine ⟨op, ho, ?_⟩
  cases hst with
  | drainClose hclose | close hclose => cases hclose
  | closeBroker => rfl
  | publish hev => cases hev

end Calls

/-! ## Membership -/

/-- A call that closes `p` has been made. -/
def CloseBegun (log : List Obs) (p : SubPtr) : Prop :=
  ∃ c op, .invoked c op ∈ log ∧ op.closes p = true

theorem CloseBegun.append (h : CloseBegun log p) (os : List Obs) :
    CloseBegun (log ++ os) p := by
  obtain ⟨c, op, ho, hop⟩ := h
  exact ⟨c, op, List.mem_append_left _ ho, hop⟩

/-- A step keeps the entry of a subscription, or a call that closes it has been made. -/
private theorem entry_step (h : (Bus.lts config).Reach NoWrap log w) (hfits : NoWrap w a)
    (heff : Effect w a w' os) (hs : w.subs[p]? = some sub)
    (hentry : w.broker.EntryAt sub.topic sub.id p) :
    w'.broker.EntryAt sub.topic sub.id p ∨ CloseBegun log p := by
  obtain ⟨hseq, hids⟩ := sequence_inv h
  have hid := hids p sub hs
  obtain ⟨hlt, -⟩ := List.getElem?_eq_some_iff.mp hs
  cases heff with
  | @call c _ _ _ _ _ hpc hm =>
    cases hm with
    | publishCached _ _ _ _ hrem =>
      left
      rw [Bus.setPc_broker, Bus.setBroker_broker,
        Broker.entryAt_congr (Broker.remember_frame hrem).1,
        Broker.entryAt_congr (Broker.cacheEvent_topics _ _)]
      exact hentry
    | publishLeave hrem =>
      left
      rw [Bus.setPc_broker, Bus.setBroker_broker,
        Broker.entryAt_congr (Broker.remember_frame hrem).1]
      exact hentry
    | @subscribe topic events =>
      left
      -- the new id is larger than every id before it
      have hne : sub.id ≠ w.broker.sequence + 1 := by
        intro heq
        have hfits' : w.broker.sequence.toNat + 1 < UInt64.size := hfits rfl
        have hnew : (w.broker.sequence + 1).toNat = w.subs.length + 1 := by
          rw [UInt64.toNat_add, UInt64.toNat_one, Nat.mod_eq_of_lt hfits', hseq]
        rw [heq, hnew] at hid
        omega
      simp only [Bus.setPc_broker, Bus.subscribeBroker]
      rw [Broker.entryAt_congr (Broker.takeCached_topics _ _ _)]
      exact Broker.entryAt_register_of_ne hentry hne
    | @closeDeregister s sub₁ hs₁ =>
      by_cases hp : s = p
      · subst hp
        obtain ⟨op, ho, hop⟩ := closes_of_closeSubscription h hpc
        exact .inr ⟨c, op, ho, hop⟩
      · left
        have hne : sub.id ≠ sub₁.id := by
          intro heq
          have hid₁ := hids s sub₁ hs₁
          rw [← heq, hid] at hid₁
          exact hp (Nat.succ.inj hid₁).symm
        exact Broker.entryAt_deregister_of_ne hentry hne
    | closeBroker =>
      obtain ⟨op, ho, hop⟩ := closes_of_closeBroker h hpc p
      exact .inr ⟨c, op, ho, hop⟩
    | _ => exact .inl hentry
  | _ => exact .inl hentry

/-- Every subscription that was made is registered under its topic and its id, as long as
    `b.sequence` does not wrap and no call that closes it has been made. -/
theorem member_inv (h : (Bus.lts config).Reach NoWrap log w) (hs : w.subs[p]? = some sub)
    (hopen : ¬CloseBegun log p) : w.broker.EntryAt sub.topic sub.id p := by
  have hall : ∀ sub, w.subs[p]? = some sub →
      w.broker.EntryAt sub.topic sub.id p ∨ CloseBegun log p := by
    refine h.induct_reach (P := fun log w => ∀ sub, w.subs[p]? = some sub →
      w.broker.EntryAt sub.topic sub.id p ∨ CloseBegun log p) ?_ ?_
    · rintro _ rfl sub hs
      simp [new] at hs
    intro log w a w' os hr ih hfits hstep sub' hs'
    have heff : Effect w a w' os := step_effect hstep
    rcases heff.subs_cases hs' with ⟨sub, hs, hlater⟩ | ⟨rfl, -⟩
    · -- an old subscription
      rw [hlater.topic, hlater.id]
      rcases ih sub hs with hentry | hclosing
      · rcases entry_step hr hfits heff hs hentry with hentry' | hclosing
        · exact .inl hentry'
        · exact .inr (hclosing.append os)
      · exact .inr (hclosing.append os)
    · -- the one this step makes
      rcases heff.registryStep with ⟨-, -, -, hlen⟩ |
        ⟨c, topic, events, -, -, -, htopics, -, -, hsubs⟩ | ⟨_, _, -, -, -, hlen⟩ | ⟨-, -, -, hlen⟩
      · exact absurd (List.getElem?_eq_some_iff.mp hs').1 (by omega)
      · rw [hsubs, List.getElem?_concat_length, Option.some.injEq] at hs'
        subst hs'
        left
        rw [Broker.entryAt_congr htopics]
        exact Broker.entryAt_register_self
      · exact absurd (List.getElem?_eq_some_iff.mp hs').1 (by omega)
      · exact absurd (List.getElem?_eq_some_iff.mp hs').1 (by omega)
  exact (hall sub hs).resolve_right hopen

/-! ## The subscribers of an event -/

section Published

variable {c d : CallId} {ctx : Ctx} {ev : Event}

/-- What a call did before another one was made, it did before any later point of the run at
    which that one was under way. -/
private theorem before_invoked {o : Obs} (h : (Bus.lts config).Steps G w₁ log₂ w)
    (hc : w₁.calls c = some pc) (hprec : (log₁ ++ log₂).Precedes o (.invoked c op)) :
    o ∈ log₁ := by
  have hnot := not_invoked_later h (c := c) (by simp [hc]) op
  rcases List.precedes_append.mp hprec with hp | hp | ⟨ho, -⟩
  · exact hp.mem_left
  · exact absurd hp.mem_right hnot
  · exact ho

/-- A subscription that was made before the call, and that no call closes, is in the
    snapshot. -/
private theorem member_snapshot (h : (Bus.lts config).Reach NoWrap log₁ w₁)
    (hlog : LogInv (log₁ ++ log₂) w) (hsub : .invoked d (.subscribe ev.topic) ∈ log₁ ++ log₂)
    (hret : .returned d (.subscribed p) ∈ log₁) (hopen : ¬CloseBegun log₁ p) :
    p ∈ w₁.broker.registered ev.topic := by
  have hd := ((log_inv h).returned d _).mp hret
  obtain ⟨op, ho⟩ := exists_invoked h hd
  obtain rfl := hlog.unique d _ _ (List.mem_append_left _ ho) hsub
  obtain ⟨sub, hs, htopic⟩ := (runs_of_invoked h ho).subscribed hd
  rw [← htopic]
  exact (Broker.mem_registered _ _ _).mpr ⟨sub.id, member_inv h hs hopen⟩

/-- The snapshot of a call that has returned `Published`: the call sends to what was
    registered then, and if there was something, none of it goes through the topic cache. -/
private theorem published_snapshot (h : (Bus.lts config).Reach G log w)
    (hcall : .invoked c (.publishWithResult ctx ev) ∈ log) (hret : .returned c .published ∈ log) :
    ∃ log₁ w₁ log₂, (Bus.lts config).Reach G log₁ w₁ ∧ (Bus.lts config).Steps G w₁ log₂ w ∧
      log = log₁ ++ log₂ ∧ w₁.calls c = some (.publish ev) ∧
      (directs log c).Perm (w₁.broker.registered ev.topic) ∧
      (directs log c ≠ [] → replays log c = []) := by
  obtain ⟨order, hsnap, hdir, hrep⟩ : ∃ order, snapshots log c = [order] ∧ directs log c = order ∧
      (order ≠ [] → replays log c = []) := by
    rcases published_account h hret with ⟨hsnap, hdir, -⟩ | ⟨sent, hsnap, -, hdir, hcach⟩
    · exact ⟨[], hsnap, hdir, fun hne => absurd rfl hne⟩
    · refine ⟨sent, by rw [hsnap, List.append_nil], hdir, fun _ => ?_⟩
      have hle := replays_le h c
      rw [hcach] at hle
      exact List.length_eq_zero_iff.mp (Nat.le_zero.mp hle)
  have hlog := log_inv h
  obtain ⟨w₀, hinit, hsteps⟩ := h
  obtain ⟨log₁, w₁, a, w₂, os, log₂, h₁, hg, hstep, ho, h₂, rfl⟩ :=
    hsteps.exists_step_of_mem (mem_snapshots.mp (hsnap ▸ List.mem_singleton.mpr rfl))
  obtain ⟨ev', oldest, hpc, -, hperm, -⟩ := (step_effect hstep).snapshot_mem ho
  obtain rfl : ev' = ev := by
    have hby := (log_inv ⟨w₀, hinit, h₁⟩).publisher c _ ev' hpc rfl
    rw [List.append_assoc] at hlog hcall
    exact hlog.event_unique (hby.append _) ⟨ctx, hcall⟩
  refine ⟨log₁, w₁, os ++ log₂, ⟨w₀, hinit, h₁⟩, (Lts.Steps.single hg hstep).trans h₂,
    ?_, hpc, ?_, ?_⟩
  · rw [List.append_assoc]
  · rw [hdir]
    exact hperm
  · rw [hdir]
    exact hrep

/-- A call has not returned when it takes its snapshot. -/
private theorem returned_later {r : Ret} (h₁ : (Bus.lts config).Reach G log₁ w₁)
    (hpc : w₁.calls c = some (.publish ev)) (hret : .returned c r ∈ log₁ ++ log₂) :
    .returned c r ∈ log₂ := by
  refine (List.mem_append.mp hret).resolve_left fun hmem => ?_
  rw [((log_inv h₁).returned c r).mp hmem] at hpc
  cases hpc

/-- A step that gives an event to a queue lets no `Close` return. -/
theorem Effect.put_not_returned (h : Effect w a w' os) (ho : .put p x route ∈ os) :
    .returned d .ok ∉ os := by
  cases h with
  | call _ hm =>
    cases hm with
    | enqueueSend => simp
    | subscribe => simp
    | _ => simp at ho
  | _ => simp at ho

/-- A queue that was closed before a call started gets nothing from it. -/
private theorem closed_gets_nothing {op' : Op} (h : (Bus.lts config).Reach G log w)
    (ho : .put p x route ∈ log) (hclose : .invoked d op' ∈ log)
    (hop : op' = .closeSubscription p ∨ ∃ ctx, op' = .drain ctx p) :
    ¬log.Precedes (.returned d .ok) (.invoked x.call op) := by
  intro hprec
  have hlog := log_inv h
  obtain ⟨w₀, hinit, hsteps⟩ := h
  obtain ⟨log₁, w₁, a, w₂, os, log₂, h₁, hg, hstep, hput, h₂, rfl⟩ := hsteps.exists_step_of_mem ho
  have heff : Effect w₁ a w₂ os := step_effect hstep
  have hr₁ : (Bus.lts config).Reach G log₁ w₁ := ⟨w₀, hinit, h₁⟩
  have hr₂ := hr₁.next hg hstep
  -- when the event is put in the queue its publisher has been invoked
  obtain ⟨⟨ctx, hinv⟩, -⟩ := (log_inv hr₂).put p x route (List.mem_append_right _ hput)
  obtain ⟨pc, hpc⟩ := Option.ne_none_iff_exists'.mp ((log_inv hr₂).invoked _ _ hinv)
  have hret : .returned d .ok ∈ log₁ :=
    (List.mem_append.mp (before_invoked h₂ hpc hprec)).resolve_right (heff.put_not_returned hput)
  -- so `Close` has returned, and the channel is closed
  have hd := ((log_inv hr₁).returned d _).mp hret
  obtain ⟨op₁, ho₁⟩ := exists_invoked hr₁ hd
  obtain rfl := hlog.unique d op₁ _ (List.mem_append_left _ (List.mem_append_left _ ho₁)) hclose
  have hruns := runs_of_invoked hr₁ ho₁
  refine (heff.put_mem hput).1 ?_
  rcases hop with rfl | ⟨ctx, rfl⟩
  · exact hruns.closed hd
  · exact hruns.drained hd nofun

end Published

/-- A call of `Subscribe` that has not entered its critical section. -/
theorem subscribe_invoked {d : CallId} {topic : Bytes} (h : (Bus.lts config).Reach G log w)
    (hd : w.calls d = some (.subscribe topic)) : .invoked d (.subscribe topic) ∈ log := by
  refine h.invariant (P := fun log w => w.calls d = some (.subscribe topic) →
    .invoked d (.subscribe topic) ∈ log) ?_ ?_ hd
  · rintro _ rfl hd
    cases hd
  intro log w a w' os ih _ hstep hd
  rcases (step_effect hstep).cases_call d with ⟨hsame, -⟩ | ⟨op, -, hstart, rfl⟩ |
    ⟨pc, pc', w₁, -, hm, rfl⟩
  · exact List.mem_append_left _ (ih (hsame ▸ hd))
  · rw [hstart, Option.some.injEq] at hd
    cases op with
    | subscribe topic' =>
      obtain rfl := Pc.subscribe.inj hd
      simp
    | _ => cases hd
  · -- no move leads there
    rw [Bus.setPc_calls_self, Option.some.injEq] at hd
    cases hm with
    | quiet hq =>
      cases hq with
      | @closeOnceAfter _ _ rest => cases rest <;> exact nomatch hd
      | @closeWait _ drain => cases drain <;> exact nomatch hd
      | _ => cases hd
    | @closeBroker order => cases order <;> exact nomatch hd
    | @closeEvents _ rest => cases rest <;> exact nomatch hd
    | _ => cases hd

/-- A subscription that was not there before a step was made by `Subscribe` in this step. -/
theorem Effect.made (h : Effect w a w' os) (hs : w'.subs[p]? = some sub)
    (hnew : ¬p < w.subs.length) :
    ∃ d, w.calls d = some (.subscribe sub.topic) ∧ .returned d (.subscribed p) ∈ os := by
  have hlt := (List.getElem?_eq_some_iff.mp hs).1
  rcases h.registryStep with ⟨-, -, -, hlen⟩ | ⟨c, topic, events, rfl, -⟩ | ⟨_, _, -, -, -, hlen⟩ |
    ⟨-, -, -, hlen⟩
  · exact absurd (hlen ▸ hlt) hnew
  · cases h with
    | @call d _ _ _ _ _ hpc hm =>
      cases hm with
      | quiet => exact absurd hlt hnew
      | @subscribe topic events =>
        rcases List.getElem?_concat_cases hs with hold | ⟨rfl, rfl⟩
        · exact absurd (List.getElem?_eq_some_iff.mp hold).1 hnew
        · exact ⟨_, hpc, by simp⟩
  · exact absurd (hlen ▸ hlt) hnew
  · exact absurd (hlen ▸ hlt) hnew

/-- Every subscription was returned by a call of `Subscribe` for its topic. -/
theorem subscribed_by (h : (Bus.lts config).Reach G log w) (hs : w.subs[p]? = some sub) :
    ∃ d, .invoked d (.subscribe sub.topic) ∈ log ∧ .returned d (.subscribed p) ∈ log := by
  refine h.induct_reach (P := fun log w => ∀ sub, w.subs[p]? = some sub → ∃ d,
    .invoked d (.subscribe sub.topic) ∈ log ∧ .returned d (.subscribed p) ∈ log) ?_ ?_ sub hs
  · rintro _ rfl sub hs
    simp [new] at hs
  intro log w a w' os hr ih _ hstep sub' hs'
  have heff : Effect w a w' os := step_effect hstep
  by_cases hold : p < w.subs.length
  · obtain ⟨sub₁, hs₁, hlater⟩ := heff.later p _ (List.getElem?_eq_getElem hold)
    rw [hs'] at hs₁
    cases hs₁
    obtain ⟨d, hinv, hret⟩ := ih _ (List.getElem?_eq_getElem hold)
    rw [hlater.topic]
    exact ⟨d, List.mem_append_left _ hinv, List.mem_append_left _ hret⟩
  · obtain ⟨d, hpc, hret⟩ := heff.made hs' hold
    exact ⟨d, List.mem_append_left _ (subscribe_invoked hr hpc), List.mem_append_right _ hret⟩

/-- Who gets an event, in every run in which `b.sequence` does not wrap (`NoWrap`). For every call
    of `PublishWithResult` that has returned `Published`: a subscription to the topic whose
    `Subscribe` had returned before the call was made, and that no call had begun to close when it
    returned, was given exactly one copy; every subscription the call sent to is one to the topic
    whose `Subscribe` returned before the call did; and a subscription of which a `Close`, or a
    `Drain` without an error, had returned before the call was made was given none, neither sent
    nor replayed. A `Drain` that returns the error of its context leaves the subscription where
    it is. -/
theorem published_to_members {config : Config} {log : List Obs} {w : Bus} {c : CallId} {ctx : Ctx}
    {ev : Event} (h : (Bus.lts config).Reach NoWrap log w)
    (hcall : .invoked c (.publishWithResult ctx ev) ∈ log)
    (hret : .returned c .published ∈ log) :
    (∀ d p, .invoked d (.subscribe ev.topic) ∈ log →
      log.Precedes (.returned d (.subscribed p)) (.invoked c (.publishWithResult ctx ev)) →
      (∀ e op, op.closes p = true → ¬log.Precedes (.invoked e op) (.returned c .published)) →
      (given log p).countP (fun x => x.call = c) = 1) ∧
    (∀ p x, .put p x .direct ∈ log → x.call = c → ∃ d, .invoked d (.subscribe ev.topic) ∈ log ∧
      log.Precedes (.returned d (.subscribed p)) (.returned c .published)) ∧
    ∀ p x route d op, .put p x route ∈ log → x.call = c → .invoked d op ∈ log →
      (op = .closeSubscription p ∨ ∃ ctx', op = .drain ctx' p) →
      ¬log.Precedes (.returned d .ok) (.invoked c (.publishWithResult ctx ev)) := by
  have hlog := log_inv h
  refine ⟨fun d p hsub hprec hopen => ?_, fun p x ho hx => ?_, ?_⟩
  · obtain ⟨log₁, w₁, log₂, h₁, h₂, rfl, hpc, hperm, hrep⟩ := published_snapshot h hcall hret
    have hlater := returned_later h₁ hpc hret
    have hnone : ¬CloseBegun log₁ p := by
      rintro ⟨e, op, ho, hop⟩
      exact hopen e op hop (List.precedes_append.mpr (.inr (.inr ⟨ho, hlater⟩)))
    have hmem : p ∈ directs (log₁ ++ log₂) c := hperm.mem_iff.mpr
      (member_snapshot h₁ hlog hsub (before_invoked h₂ hpc hprec) hnone)
    have hnodup : (directs (log₁ ++ log₂) c).Nodup :=
      hperm.nodup_iff.mpr (registered_nodup (registry_inv h₁) _)
    rw [given_countP, List.count_eq_one_of_mem hnodup hmem, hrep (List.ne_nil_of_mem hmem),
      List.count_nil]
  · obtain ⟨log₁, w₁, log₂, h₁, -, rfl, hpc, hperm, -⟩ := published_snapshot h hcall hret
    have hlater := returned_later h₁ hpc hret
    have hmem : p ∈ w₁.broker.registered ev.topic :=
      hperm.mem_iff.mp (mem_directs.mpr ⟨x, hx, ho⟩)
    obtain ⟨id, hentry⟩ := (Broker.mem_registered _ _ _).mp hmem
    obtain ⟨sub, hs, htopic, -⟩ := (registry_inv h₁).own _ id p hentry
    obtain ⟨d, hinv, hsub⟩ := subscribed_by h₁ hs
    rw [htopic] at hinv
    exact ⟨d, List.mem_append_left _ hinv, List.precedes_append.mpr (.inr (.inr ⟨hsub, hlater⟩))⟩
  · rintro p x route d op ho rfl hclose hop
    exact closed_gets_nothing h ho hclose hop

/-- Of two subscriptions to the topic the first is closed before the event is published; the
    second one gets it. -/
theorem published_to_members_second :
    ∃ log w, (Bus.lts ⟨1, 0, 0, .block⟩).Reach NoWrap log w ∧
      .invoked 3 (.publishWithResult .background ⟨[1], [], [7], [], []⟩) ∈ log ∧
      .returned 3 .published ∈ log ∧ (given log 1).countP (fun x => x.call = 3) = 1 ∧
      ∀ x route, .put 0 x route ∈ log → x.call ≠ 3 := by
  obtain ⟨log, w, hr, rfl⟩ :=
    Lts.reach_of_runWhere (M := Bus.lts ⟨1, 0, 0, .block⟩) (G := NoWrap) rfl
      (Broker.subscribeRun 0 ++ Broker.subscribeRun 1 ++
        [Action.invoke 2 (.closeSubscription 0), .closeDeregister 2, .closeOnce 2, .closeMark 2,
          .closeWait 2, .closeEvents 2] ++
        Broker.publishRun 3 1 [1] ++ Broker.giveRun 3 ++ [Action.publishLeave 3 []])
      (Q := fun r => r.2 =
        [.invoked 0 (.subscribe [7]), .returned 0 (.subscribed 0), .invoked 1 (.subscribe [7]),
          .returned 1 (.subscribed 1), .invoked 2 (.closeSubscription 0), .closedDone 0,
          .closedEvents 0, .returned 2 .ok,
          .invoked 3 (.publishWithResult .background ⟨[1], [], [7], [], []⟩), .snapshot 3 [1],
          .put 1 ⟨3, ⟨[1], [], [7], [], []⟩⟩ .direct, .returned 3 .published])
      (by decide)
  obtain ⟨hgets, -, hnot⟩ := published_to_members (c := 3) hr
    (List.mem_of_getElem? (i := 8) rfl) (by decide)
  refine ⟨_, w, hr, by decide, by decide, hgets 1 1 (by decide) ?_ ?_, fun x route ho hx => ?_⟩
  · simp [List.precedes_cons]
  · rintro e op hop hprec
    have ho := hprec.mem_left
    simp only [List.mem_cons, Obs.invoked.injEq, reduceCtorEq, List.not_mem_nil, false_or,
      or_false] at ho
    rcases ho with ⟨-, rfl⟩ | ⟨-, rfl⟩ | ⟨-, rfl⟩ | ⟨-, rfl⟩ <;> simp [Op.closes] at hop
  · exact hnot 0 x route 2 _ ho hx (by decide) (.inl rfl) (by simp [List.precedes_cons])

end EventBus
