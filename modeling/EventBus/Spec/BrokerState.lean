import EventBus.Spec.BrokerChannel
import EventBus.Spec.BrokerFanOut
import Mathlib.Data.Set.Card

/-!
# The registry over whole runs

`Subscribe` enters a subscription under a new id, `Subscription.Close` takes it out, and
`Broker.Close` replaces the whole map. What these sections agree on holds in every state
between them: ids are given out in order and never twice, no topic is left with an empty set,
a registered subscription is open, and a broker that is closed has no subscriptions. `State`
can therefore count by the sizes of the maps.

## Key results

- `Effect.registryStep`: what a step does to the registry
- `sequence_inv`: ids are positions, as long as `b.sequence` does not wrap
- `allRegistered_nodup`: a subscription is registered once
- `registry_consistent`: the registry invariant, and what `State` counts
-/

namespace EventBus

/-! ## What a step does to the registry -/

namespace Broker

variable {b b' : Broker} {topic id oldest : Bytes}

@[simp] theorem takeCached_sequence (b : Broker) (topic : Bytes) (n : Nat) :
    (b.takeCached topic n).sequence = b.sequence := by
  simp only [takeCached]; split <;> [rfl; (split <;> rfl)]

@[simp] theorem takeCached_closed (b : Broker) (topic : Bytes) (n : Nat) :
    (b.takeCached topic n).closed = b.closed := by
  simp only [takeCached]; split <;> [rfl; (split <;> rfl)]

@[simp] theorem cacheEvent_sequence (b : Broker) (x : Copy) :
    (b.cacheEvent x).sequence = b.sequence := by
  simp only [cacheEvent]; split <;> [rfl; (split <;> rfl)]

@[simp] theorem cacheEvent_closed (b : Broker) (x : Copy) :
    (b.cacheEvent x).closed = b.closed := by
  simp only [cacheEvent]; split <;> [rfl; (split <;> rfl)]

@[simp] theorem deregister_sequence (b : Broker) (topic : Bytes) (i : UInt64) :
    (b.deregister topic i).sequence = b.sequence := by
  simp only [deregister]; split <;> [rfl; (split <;> rfl)]

@[simp] theorem deregister_closed (b : Broker) (topic : Bytes) (i : UInt64) :
    (b.deregister topic i).closed = b.closed := by
  simp only [deregister]; split <;> [rfl; (split <;> rfl)]

theorem remember_sequence (h : b.remember topic id oldest = some b') :
    b'.sequence = b.sequence := by
  simp only [remember] at h
  split at h
  · obtain rfl := Option.some.inj h; rfl
  split at h
  · split at h
    · obtain rfl := Option.some.inj h; rfl
    · cases h
  · obtain rfl := Option.some.inj h; rfl

/-- No topic has an empty set of subscriptions. -/
def NoEmptyTopic (b : Broker) : Prop := ∀ t m, b.topics.lookup t = some m → m.entries ≠ []

theorem NoEmptyTopic.register (h : b.NoEmptyTopic) (topic : Bytes) (i : UInt64) (s : SubPtr) :
    (b.register topic i s).NoEmptyTopic := by
  intro t m hm
  by_cases ht : t = topic
  · subst ht
    simp only [Broker.register, AList.lookup_insert, Option.some.injEq] at hm
    subst hm
    rw [AList.entries_insert]
    exact List.cons_ne_nil _ _
  · simp only [Broker.register, AList.lookup_insert_ne ht] at hm
    exact h t m hm

/-- The topic goes with its last subscription. -/
theorem NoEmptyTopic.deregister (h : b.NoEmptyTopic) (topic : Bytes) (i : UInt64) :
    (b.deregister topic i).NoEmptyTopic := by
  intro t m hm
  simp only [Broker.deregister] at hm
  split at hm
  · exact h t m hm
  · split at hm
    · by_cases ht : t = topic
      · subst ht
        simp at hm
      · rw [AList.lookup_erase_ne ht] at hm
        exact h t m hm
    · rename_i hne
      by_cases ht : t = topic
      · subst ht
        rw [AList.lookup_insert] at hm
        cases hm
        simpa using hne
      · rw [AList.lookup_insert_ne ht] at hm
        exact h t m hm

end Broker

section Steps

variable {w w' : Bus} {a : Action} {os : List Obs} {p : SubPtr} {sub' : Subscription}

/-- What a step does to the registry: nothing, or one of the three sections that change it. -/
theorem Effect.registryStep (h : Effect w a w' os) :
    (w'.broker.topics = w.broker.topics ∧ w'.broker.sequence = w.broker.sequence ∧
      w'.broker.closed = w.broker.closed ∧ w'.subs.length = w.subs.length) ∨
    (∃ c topic events, a = .subscribe c ∧ w.broker.closed = false ∧
      events.cap = w.broker.config.queueSize ∧
      w'.broker.topics = (w.broker.register topic (w.broker.sequence + 1) w.subs.length).topics ∧
      w'.broker.sequence = w.broker.sequence + 1 ∧ w'.broker.closed = false ∧
      w'.subs = w.subs ++ [w.subscribeNew topic events]) ∨
    (∃ topic id, w'.broker.topics = (w.broker.deregister topic id).topics ∧
      w'.broker.sequence = w.broker.sequence ∧ w'.broker.closed = w.broker.closed ∧
      w'.subs.length = w.subs.length) ∨
    (w'.broker.topics = ∅ ∧ w'.broker.sequence = w.broker.sequence ∧
      w'.broker.closed = true ∧ w'.subs.length = w.subs.length) := by
  cases h with
  | call hpc hm =>
    cases hm with
    | publishCached _ _ _ _ hrem =>
      obtain ⟨htopics, -, -, hclosed, -⟩ := Broker.remember_frame hrem
      exact .inl ⟨by simp [htopics], by simp [Broker.remember_sequence hrem],
        by simp [hclosed], rfl⟩
    | publishLeave hrem =>
      obtain ⟨htopics, -, -, hclosed, -⟩ := Broker.remember_frame hrem
      exact .inl ⟨htopics, Broker.remember_sequence hrem, hclosed, rfl⟩
    | @subscribe topic events hclosed _ _ hcap =>
      refine .inr (.inl ⟨_, topic, events, rfl, hclosed, hcap, ?_, ?_, ?_, rfl⟩)
      · simp [Bus.subscribeBroker]
      · simp [Bus.subscribeBroker, Broker.register]
      · simpa [Bus.subscribeBroker, Broker.register] using hclosed
    | @closeDeregister s sub =>
      exact .inr (.inr (.inl ⟨sub.topic, sub.id, rfl, by simp, by simp, rfl⟩))
    | closeBroker => exact .inr (.inr (.inr ⟨rfl, rfl, rfl, rfl⟩))
    | enqueueEnter | enqueueSend | enqueueReturn | enqueueFail | closeOnce | closeMark
    | closeDiscard | closeEvents => exact .inl ⟨rfl, rfl, rfl, by simp⟩
    | _ => exact .inl ⟨rfl, rfl, rfl, rfl⟩
  | receive => exact .inl ⟨rfl, rfl, rfl, by simp⟩
  | _ => exact .inl ⟨rfl, rfl, rfl, rfl⟩

/-- A subscription after a step was there before, or `Subscribe` has just made it. -/
theorem Effect.subs_cases (h : Effect w a w' os) (hp : w'.subs[p]? = some sub') :
    (∃ sub, w.subs[p]? = some sub ∧ sub.Later sub') ∨
      (p = w.subs.length ∧ ∃ topic events, events.cap = w.broker.config.queueSize ∧
        sub' = w.subscribeNew topic events) := by
  by_cases hold : p < w.subs.length
  · obtain ⟨sub₁, hs, hlater⟩ := h.later p _ (List.getElem?_eq_getElem hold)
    rw [hp] at hs
    cases hs
    exact .inl ⟨_, List.getElem?_eq_getElem hold, hlater⟩
  · have hlt := (List.getElem?_eq_some_iff.mp hp).1
    rcases h.registryStep with ⟨-, -, -, hlen⟩ | ⟨c, topic, events, -, -, hcap, -, -, -, hsubs⟩ |
      ⟨_, _, -, -, -, hlen⟩ | ⟨-, -, -, hlen⟩
    · exact absurd (hlen ▸ hlt) hold
    · rw [hsubs] at hp
      rcases List.getElem?_concat_cases hp with hs | ⟨rfl, rfl⟩
      · exact absurd (List.getElem?_eq_some_iff.mp hs).1 hold
      · exact .inr ⟨rfl, topic, events, hcap, rfl⟩
    · exact absurd (hlen ▸ hlt) hold
    · exact absurd (hlen ▸ hlt) hold

/-- A broker that has been closed stays closed. -/
theorem Effect.closed_stays (h : Effect w a w' os) (hclosed : w.broker.closed = true) :
    w'.broker.closed = true := by
  rcases h.registryStep with ⟨-, -, hsame, -⟩ | ⟨_, _, _, -, hopen, -⟩ | ⟨_, _, -, -, hsame, -⟩ |
    ⟨-, -, hclosed', -⟩
  · exact hsame.trans hclosed
  · rw [hopen] at hclosed
    cases hclosed
  · exact hsame.trans hclosed
  · exact hclosed'

end Steps

/-! ## Invariants -/

/-- The critical section of `Subscribe`. -/
def Action.subscribes : Action → Bool
  | .subscribe _ => true
  | _ => false

/-- `b.sequence++` does not wrap. -/
def NoWrap (w : Bus) (a : Action) : Prop :=
  a.subscribes = true → w.broker.sequence.toNat + 1 < UInt64.size

instance (w : Bus) (a : Action) : Decidable (NoWrap w a) := inferInstanceAs (Decidable (_ → _))

section Runs

variable {config : Config} {G : Bus → Action → Prop} {log : List Obs} {w w' : Bus}

/-- No topic is left with an empty set. -/
theorem noEmptyTopic_inv (h : (Bus.lts config).Reach G log w) : w.broker.NoEmptyTopic := by
  refine h.invariant (P := fun _ w => w.broker.NoEmptyTopic) ?_ ?_
  · rintro _ rfl t m hm
    simp [new] at hm
  · intro log w a w' os hinv _ hstep
    rcases (step_effect hstep).registryStep with ⟨htopics, -⟩ |
      ⟨_, topic, _, -, -, -, htopics, -⟩ | ⟨topic, id, htopics, -⟩ | ⟨htopics, -⟩
    · exact fun t m hm => hinv t m (htopics ▸ hm)
    · exact fun t m hm => hinv.register topic _ _ t m (htopics ▸ hm)
    · exact fun t m hm => hinv.deregister topic id t m (htopics ▸ hm)
    · intro t m hm
      rw [htopics] at hm
      simp at hm

/-- A closed broker has no subscriptions. -/
theorem closed_topics (h : (Bus.lts config).Reach G log w) (hclosed : w.broker.closed = true) :
    w.broker.topics = ∅ := by
  have hall : w.broker.closed = true → w.broker.topics = ∅ := by
    refine h.invariant (P := fun _ w => w.broker.closed = true → w.broker.topics = ∅) ?_ ?_
    · rintro _ rfl hclosed
      cases hclosed
    · intro log w a w' os hinv _ hstep hclosed'
      rcases (step_effect hstep).registryStep with ⟨htopics, -, hsame, -⟩ |
        ⟨_, _, _, -, -, -, -, -, hopen, -⟩ | ⟨topic, id, htopics, -, hsame, -⟩ | ⟨htopics, -⟩
      · rw [htopics]
        exact hinv (hsame ▸ hclosed')
      · rw [hopen] at hclosed'
        cases hclosed'
      · -- there is nothing left to take out
        have hnil := hinv (hsame ▸ hclosed')
        rw [htopics, Broker.deregister, hnil]
        simp [hnil]
      · exact htopics
  exact hall hclosed

/-- Every queue has the capacity of the configuration. -/
theorem capacity_inv (h : (Bus.lts config).Reach G log w) {p : SubPtr} {sub : Subscription}
    (hs : w.subs[p]? = some sub) : sub.events.cap = config.normalise.queueSize := by
  have hall : ∀ (p : SubPtr) (sub : Subscription), w.subs[p]? = some sub →
      sub.events.cap = config.normalise.queueSize := by
    refine h.induct_reach
      (P := fun _ w => ∀ (p : SubPtr) (sub : Subscription), w.subs[p]? = some sub →
      sub.events.cap = config.normalise.queueSize) ?_ ?_
    · rintro _ rfl p sub hs
      simp [new] at hs
    · intro log w a w' os hr hinv _ hstep p sub' hs
      rcases (step_effect hstep).subs_cases hs with ⟨sub, hs₀, hlater⟩ |
        ⟨-, topic, events, hcap, rfl⟩
      · exact hlater.cap.trans (hinv p sub hs₀)
      · rw [← config_inv hr]
        exact hcap
  exact hall p sub hs

/-- As long as `b.sequence` does not wrap, it counts the subscriptions made, and each of them
    has the next number as its id. -/
theorem sequence_inv (h : (Bus.lts config).Reach NoWrap log w) :
    w.broker.sequence.toNat = w.subs.length ∧
      ∀ p sub, w.subs[p]? = some sub → sub.id.toNat = p + 1 := by
  refine h.invariant (P := fun _ w => w.broker.sequence.toNat = w.subs.length ∧
    ∀ p sub, w.subs[p]? = some sub → sub.id.toNat = p + 1) ?_ ?_
  · rintro _ rfl
    exact ⟨rfl, fun p sub hs => by simp [new] at hs⟩
  rintro log w a w' os ⟨hseq, hids⟩ hfits hstep
  have heff : Effect w a w' os := step_effect hstep
  have hold : ∀ p sub', w'.subs[p]? = some sub' → p < w.subs.length → sub'.id.toNat = p + 1 := by
    intro p sub' hs hlt
    rcases heff.subs_cases hs with ⟨sub, hs₀, hlater⟩ | ⟨rfl, -⟩
    · rw [hlater.id]
      exact hids p sub hs₀
    · exact absurd hlt (Nat.lt_irrefl _)
  have hstay : w'.broker.sequence = w.broker.sequence → w'.subs.length = w.subs.length →
      w'.broker.sequence.toNat = w'.subs.length ∧
        ∀ p sub, w'.subs[p]? = some sub → sub.id.toNat = p + 1 := by
    intro hsame hlen
    refine ⟨by rw [hsame, hlen, hseq], fun p sub' hs => hold p sub' hs ?_⟩
    rw [← hlen]
    exact (List.getElem?_eq_some_iff.mp hs).1
  rcases heff.registryStep with ⟨-, hsame, -, hlen⟩ |
    ⟨c, topic, events, rfl, -, -, -, hnext, -, hsubs⟩ |
    ⟨_, _, -, hsame, -, hlen⟩ | ⟨-, hsame, -, hlen⟩
  · exact hstay hsame hlen
  · -- the new id is the next number, because the sum does not wrap
    have hnew : (w.broker.sequence + 1).toNat = w.subs.length + 1 := by
      have hfits' : w.broker.sequence.toNat + 1 < UInt64.size := hfits rfl
      rw [UInt64.toNat_add, UInt64.toNat_one, Nat.mod_eq_of_lt hfits', hseq]
    refine ⟨by rw [hnext, hnew, hsubs, List.length_append, List.length_singleton], ?_⟩
    intro p sub' hs
    rw [hsubs] at hs
    rcases List.getElem?_concat_cases hs with hs₀ | ⟨rfl, rfl⟩
    · exact hids p sub' hs₀
    · exact hnew
  · exact hstay hsame hlen
  · exact hstay hsame hlen

/-- `Broker.Close` leaves its critical section with the broker closed. -/
private theorem Move.closes {w₁ : Bus} {c : CallId} {a : Action} {pc' : Pc} {os : List Obs}
    (h : Move w c a .closeBroker pc' w₁ os) : w₁.broker.closed = true := by
  cases h with
  | quiet hq =>
    cases hq with
    | closeBrokerAgain hclosed => exact hclosed
  | closeBroker => rfl

/-- A call of `Broker.Close` that has got past its critical section has closed the broker. -/
theorem closeBroker_closes (h : (Bus.lts config).Reach G log w) {c : CallId}
    (ho : .invoked c .closeBroker ∈ log) (hpast : w.calls c ≠ some .closeBroker) :
    w.broker.closed = true := by
  have hall : .invoked c .closeBroker ∈ log →
      w.calls c = some .closeBroker ∨ w.broker.closed = true := by
    refine h.invariant (P := fun log w => .invoked c .closeBroker ∈ log →
      w.calls c = some .closeBroker ∨ w.broker.closed = true) ?_ ?_
    · exact fun _ _ hmem => nomatch hmem
    intro log w a w' os hinv _ hstep hmem
    have heff : Effect w a w' os := step_effect hstep
    rcases heff.cases_call c with ⟨hsame, hnot⟩ | ⟨op, hnone, hpc', hos⟩ |
      ⟨pc, pc', w₁, hpc, hm, rfl⟩
    · rcases List.mem_append.mp hmem with hold | hnew
      · rcases hinv hold with hpc | hclosed
        · exact .inl (hsame.trans hpc)
        · exact .inr (heff.closed_stays hclosed)
      · exact absurd rfl (hnot _ hnew)
    · rcases List.mem_append.mp hmem with hold | hnew
      · rcases hinv hold with hpc | hclosed
        · rw [hnone] at hpc
          cases hpc
        · exact .inr (heff.closed_stays hclosed)
      · rw [hos, List.mem_singleton] at hnew
        obtain ⟨-, rfl⟩ := Obs.invoked.inj hnew
        exact .inl hpc'
    · rcases hinv ((List.mem_append.mp hmem).resolve_right hm.not_invoked) with hpc₀ | hclosed
      · rw [hpc] at hpc₀
        cases hpc₀
        exact .inr hm.closes
      · exact .inr (heff.closed_stays hclosed)
  exact (hall ho).resolve_left hpast

/-- No subscription is registered twice. -/
theorem allRegistered_nodup (hinv : w.RegistryInv) : w.broker.allRegistered.Nodup := by
  rw [Broker.allRegistered, List.nodup_flatMap]
  have hreg : ∀ e ∈ w.broker.topics.entries,
      e.2.entries.map (·.2) = w.broker.registered e.1 := fun e he => by
    rw [Broker.registered, AList.mem_lookup_iff.mpr he]
  refine ⟨fun e he => ?_, ?_⟩
  · rw [hreg e he]
    exact registered_nodup hinv e.1
  · -- a subscription has one topic
    refine (List.nodupKeys_iff_pairwise.mp w.broker.topics.nodupKeys).imp_of_mem ?_
    intro e e' he he' hne p hp hp'
    have hmem : p ∈ w.broker.registered e.1 := hreg e he ▸ hp
    have hmem' : p ∈ w.broker.registered e'.1 := hreg e' he' ▸ hp'
    obtain ⟨id, hentry⟩ := (Broker.mem_registered _ _ _).mp hmem
    obtain ⟨id', hentry'⟩ := (Broker.mem_registered _ _ _).mp hmem'
    obtain ⟨sub, hs, ht, -⟩ := hinv.own _ _ _ hentry
    obtain ⟨sub', hs', ht', -⟩ := hinv.own _ _ _ hentry'
    rw [hs] at hs'
    cases hs'
    exact hne (ht.symm.trans ht')

/-- The registered subscriptions are counted by the sizes of the maps. -/
theorem state_subscriptions (hinv : w.RegistryInv) :
    w.state.subscriptions = Set.ncard {p | ∃ t, p ∈ w.broker.registered t} := by
  have hset : {p | ∃ t, p ∈ w.broker.registered t} = ↑w.broker.allRegistered.toFinset := by
    ext p
    rw [Set.mem_ofPred_eq, List.coe_toFinset, Set.mem_ofPred_eq, Broker.mem_allRegistered]
  rw [hset, Set.ncard_coe_finset, List.toFinset_card_of_nodup (allRegistered_nodup hinv)]
  have hlen := List.foldl_add_length (fun e => e.2.entries.map (·.2)) w.broker.topics.entries 0
  simp only [List.length_map, Nat.zero_add] at hlen
  exact hlen

/-- The topics with a subscription are counted by the size of the map. -/
theorem state_topics (hne : w.broker.NoEmptyTopic) :
    w.state.topics = Set.ncard {t | w.broker.registered t ≠ []} := by
  have hset : {t | w.broker.registered t ≠ []} = ↑w.broker.topics.keys.toFinset := by
    ext t
    rw [Set.mem_ofPred_eq, List.coe_toFinset, Set.mem_ofPred_eq]
    change w.broker.registered t ≠ [] ↔ t ∈ w.broker.topics
    rw [← AList.lookup_isSome, Broker.registered]
    cases hl : w.broker.topics.lookup t with
    | none => simp
    | some m => simpa using hne t m hl
  rw [hset, Set.ncard_coe_finset, List.toFinset_card_of_nodup w.broker.topics.keys_nodup]
  simp [Bus.state, AList.keys, List.keys]

end Runs

/-- The registry invariant. In every state of every run in which `b.sequence` does not wrap: a
    subscription registered under topic `t` and id `i` has that topic and that id, which is at
    most `b.sequence`, and is not closed; no id is registered under two topics and no topic has
    an empty set; no queue is longer than `QueueSize`; a subscription that is not registered is
    never registered again; a call of `Broker.Close` that is past its critical section has
    closed the broker, and a closed broker has no topics, for ever; and `State` counts the
    registered subscriptions and the topics that have one. -/
theorem registry_consistent {config : Config} {log : List Obs} {w : Bus}
    (h : (Bus.lts config).Reach NoWrap log w) :
    (∀ t i p, w.broker.EntryAt t i p → ∃ sub, w.subs[p]? = some sub ∧ sub.topic = t ∧ sub.id = i ∧
      i ≤ w.broker.sequence ∧ sub.closed = false ∧ sub.done = false ∧ sub.events.closed = false) ∧
    (∀ t t' i p p', w.broker.EntryAt t i p → w.broker.EntryAt t' i p' → t = t') ∧
    (∀ t m, w.broker.topics.lookup t = some m → m.entries ≠ []) ∧
    (∀ (p : SubPtr) (sub : Subscription), w.subs[p]? = some sub →
      sub.events.buf.length ≤ config.normalise.queueSize) ∧
    (∀ p < w.subs.length, w.Unregistered p → ∀ log' w', (Bus.lts config).Steps NoWrap w log' w' →
      w'.Unregistered p) ∧
    (∀ c, .invoked c .closeBroker ∈ log → w.calls c ≠ some .closeBroker →
      w.broker.closed = true) ∧
    (w.broker.closed = true → ∀ log' w', (Bus.lts config).Steps NoWrap w log' w' →
      w'.broker.closed = true ∧ w'.broker.topics = ∅) ∧
    w.state.subscriptions = Set.ncard {p | ∃ t, p ∈ w.broker.registered t} ∧
    w.state.topics = Set.ncard {t | w.broker.registered t ≠ []} := by
  have hreg := registry_inv h
  obtain ⟨hseq, hids⟩ := sequence_inv h
  refine ⟨fun t i p he => ?_, fun t t' i p p' he he' => ?_, noEmptyTopic_inv h, fun p sub hs => ?_,
    fun p hp hun log' w' hsteps => ?_, fun c ho hpast => closeBroker_closes h ho hpast,
    fun hclosed log' w' hsteps => ?_, state_subscriptions hreg, state_topics (noEmptyTopic_inv h)⟩
  · obtain ⟨sub, hs, ht, hi⟩ := hreg.own t i p he
    have hfresh : sub.once = .fresh := by
      by_contra hne
      exact hreg.entered p sub hs hne t i he
    have hsub := sub_inv h hs
    have hopen := hsub.fresh hfresh
    refine ⟨sub, hs, ht, hi, ?_, hopen, hsub.done.trans hopen, ?_⟩
    · -- the id is the position of the subscription, counted from 1
      rw [UInt64.le_iff_toNat_le, ← hi, hids p sub hs, hseq]
      exact (List.getElem?_eq_some_iff.mp hs).1
    · rw [← Bool.not_eq_true, hsub.ended, hfresh]
      exact nofun
  · obtain ⟨sub, hs, ht, hi⟩ := hreg.own t i p he
    obtain ⟨sub', hs', ht', hi'⟩ := hreg.own t' i p' he'
    -- IDs are not reused, so that the two entries are of one subscription
    have hp : p + 1 = p' + 1 := by rw [← hids p sub hs, ← hids p' sub' hs', hi, hi']
    obtain rfl : p = p' := Nat.succ.inj hp
    rw [hs] at hs'
    cases hs'
    exact ht.symm.trans ht'
  · rw [← capacity_inv h hs]
    exact sub.events.fits
  · have hstay := hsteps.stable (P := fun w => p < w.subs.length ∧ w.Unregistered p) ⟨hp, hun⟩
      fun w a w' os ⟨hp, hun⟩ _ hstep =>
        ⟨(step_effect hstep).alloc hp, unregistered_step (step_effect hstep) hp hun⟩
    exact hstay.2
  · have hstay := hsteps.stable (P := fun w => w.broker.closed = true) hclosed
      fun w a w' os hclosed _ hstep => (step_effect hstep).closed_stays hclosed
    exact ⟨hstay, closed_topics (h.trans hsteps) hstay⟩

/-- Of two subscriptions for two topics one is closed: `State` counts the other one. -/
theorem registry_consistent_one_left :
    ∃ log w, (Bus.lts ⟨1, 0, 0, .block⟩).Reach NoWrap log w ∧ w.subs.length = 2 ∧
      w.state.subscriptions = 1 ∧ w.state.topics = 1 ∧
      Set.ncard {p | ∃ t, p ∈ w.broker.registered t} = 1 ∧
      Set.ncard {t | w.broker.registered t ≠ []} = 1 := by
  obtain ⟨log, w, hr, hlen, hsubs, htopics⟩ :=
    Lts.reach_of_runWhere (M := Bus.lts ⟨1, 0, 0, .block⟩) (G := NoWrap) rfl
      [.invoke 0 (.subscribe [7]), .subscribe 0, .invoke 1 (.subscribe [8]), .subscribe 1,
        .invoke 2 (.closeSubscription 0), .closeDeregister 2]
      (Q := fun r => r.1.subs.length = 2 ∧ r.1.state.subscriptions = 1 ∧ r.1.state.topics = 1)
      (by decide)
  obtain ⟨-, -, -, -, -, -, -, hcount, hcount'⟩ := registry_consistent hr
  exact ⟨log, w, hr, hlen, hsubs, htopics, hcount ▸ hsubs, hcount' ▸ htopics⟩

end EventBus
