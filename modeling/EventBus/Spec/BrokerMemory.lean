import EventBus.Spec.BrokerDedup

/-!
# What the broker remembers

`b.remember` runs at the end of `PublishWithResult`, outside the critical section that
looked the key up, and evicts whatever key the map iteration yields first. In every run a
remembered key is nevertheless that of a call that completed, and no topic has more keys
than `DeduplicationSize`. A call that fails leaves the broker as it found it.

## Key results

- `known_inv`: behind every remembered key there is a call that returned `Published`
- `remembered_card_le`: the bound on the remembered keys of a topic
- `Move.broker_of_publish`: a publisher changes the broker only as it returns `Published`
- `no_false_duplicates`: all of these for every run, and what they say about `Duplicate`
-/

namespace EventBus

namespace Broker

variable {b b' : Broker} {topic id oldest : Bytes}

/-- `remember` makes room before it adds a key. -/
theorem remember_card (h : b.remember topic id oldest = some b') {t : Bytes}
    (hle : (b.remembered t).card ≤ b.config.deduplicationSize) :
    (b'.remembered t).card ≤ b.config.deduplicationSize := by
  simp only [remember] at h
  split at h
  · cases h
    exact hle
  rename_i hid
  have hpos : b.config.deduplicationSize ≠ 0 := fun hzero => hid (.inr hzero)
  -- both ways of adding the key insert it in a set with room for one more
  have hinsert : ∀ s : Finset Bytes, s.card < b.config.deduplicationSize →
      some ({ b with dedup := b.dedup.insert topic (insert id s) } : Broker) = some b' →
      (b'.remembered t).card ≤ b.config.deduplicationSize := by
    intro s hs heq
    cases heq
    by_cases ht : t = topic
    · subst ht
      simp only [remembered, AList.lookup_insert, Option.getD_some]
      exact (Finset.card_insert_le _ _).trans hs
    · simpa only [remembered, AList.lookup_insert_ne ht] using hle
  split at h
  · rename_i hfull
    split at h
    · rename_i hmem
      by_cases ht : t = topic
      · subst ht
        refine hinsert _ ?_ h
        rw [Finset.card_erase_of_mem hmem]
        omega
      · cases h
        simpa only [remembered, AList.lookup_insert_ne ht] using hle
    · cases h
  · exact hinsert _ (by omega) h

end Broker

section Runs

variable {config : Config} {G : Bus → Action → Prop} {log : List Obs} {w : Bus}

/-- A remembered key is that of a published event. -/
theorem known_inv (h : (Bus.lts config).Reach G log w) (t k : Bytes)
    (hk : k ∈ w.broker.remembered t) :
    k ≠ [] ∧ ∃ c, PublishedKey log t k c ∧ .returned c .published ∈ log := by
  have hall : ∀ t k, k ∈ w.broker.remembered t → k ≠ [] ∧ ∃ c ev, PublishedBy log c ev ∧
      ev.topic = t ∧ idempotencyKey ev = k ∧ .returned c .published ∈ log := by
    refine h.induct_reach (P := fun log w => ∀ t k, k ∈ w.broker.remembered t → k ≠ [] ∧
      ∃ c ev, PublishedBy log c ev ∧ ev.topic = t ∧ idempotencyKey ev = k ∧
        .returned c .published ∈ log) ?_ ?_
    · rintro _ rfl t k hk
      simp [new, Broker.remembered] at hk
    · intro log w a w' os hr ih _ hstep
      exact known_step (step_effect hstep) (log_inv hr) ih
  obtain ⟨hne, c, ev, hby, ht, hkey, hret⟩ := hall t k hk
  exact ⟨hne, c, ⟨ev, hby, ht, hkey⟩, hret⟩

/-- No topic has more than `DeduplicationSize` remembered keys. -/
theorem remembered_card_le (h : (Bus.lts config).Reach G log w) (t : Bytes) :
    (w.broker.remembered t).card ≤ config.normalise.deduplicationSize := by
  refine h.induct_reach
    (P := fun _ w => (w.broker.remembered t).card ≤ config.normalise.deduplicationSize) ?_ ?_
  · rintro _ rfl
    simp [new, Broker.remembered]
  · intro log w a w' os hr ih _ hstep
    rcases (step_effect hstep).published_cases with ⟨hsame, -⟩ | ⟨c, ev, hp⟩
    · rwa [hsame]
    · obtain ⟨b, oldest, hrem, hdedup, hconf⟩ := hp.remembers
      rw [← config_inv hr, ← hconf] at ih ⊢
      exact Broker.remember_card hrem (Broker.remembered_congr hdedup t ▸ ih)

/-- A call that has been made was made in the part of the run before. -/
theorem invoked_before {log₁ rest : List Obs} {w₁ : Bus} {c : CallId} {op : Op}
    (hst : (Bus.lts config).Steps G w₁ rest w) (hc : w₁.calls c ≠ none)
    (ho : .invoked c op ∈ log₁ ++ rest) : .invoked c op ∈ log₁ := by
  refine (List.mem_append.mp ho).resolve_right fun hrest => ?_
  obtain ⟨log₂, w₂, a, w₃, os, log₃, h₂, -, hstep, hos, -, -⟩ := hst.exists_step_of_mem hrest
  refine not_invoked_again (step_effect hstep) ?_ op hos
  -- a call that exists goes on existing
  refine h₂.stable (P := fun w => w.calls c ≠ none) hc ?_
  intro w a w' os hne _ hstep
  rcases (step_effect hstep).cases_call c with
    ⟨hsame, -⟩ | ⟨op, -, hpc', -⟩ | ⟨pc, pc', w₁, -, -, rfl⟩
  · rwa [hsame]
  · simp [hpc']
  · simp

/-- A publisher changes the broker only in the step in which it returns `Published`. -/
theorem Move.broker_of_publish {w₁ : Bus} {c : CallId} {a : Action} {pc pc' : Pc}
    {os : List Obs} (h : Move w c a pc pc' w₁ os) (hpc : pc.IsPublish) :
    w₁.broker = w.broker ∨ pc' = .returned .published := by
  cases h with
  | publishCached | publishLeave => exact .inr rfl
  | subscribe | beginShutdown | closeDeregister | closeBroker => exact hpc.elim
  | _ => exact .inl rfl

/-- A call of `PublishWithResult` that returns an error leaves the broker alone in each of
    its steps. -/
theorem broker_of_failed {w₁ w₂ : Bus} {a : Action} {log₁ os log₂ : List Obs}
    (h₁ : (Bus.lts config).Reach G log₁ w₁) (hg : G w₁ a) (hstep : w₁.step a = some (w₂, os))
    (h₂ : (Bus.lts config).Steps G w₂ log₂ w) {c : CallId} {ev : Event} {err : Err}
    (hby : PublishedBy (log₁ ++ os ++ log₂) c ev)
    (hret : .returned c (.failed err) ∈ log₁ ++ os ++ log₂) (hmoves : w₂.calls c ≠ w₁.calls c) :
    w₂.broker = w₁.broker := by
  have heff := step_effect hstep
  have hlog := log_inv ((h₁.next hg hstep).trans h₂)
  rcases heff.cases_call c with ⟨hsame, -⟩ | ⟨op, -, -, rfl⟩ | ⟨pc, pc', w₁', hpc, hm, rfl⟩
  · exact absurd hsame hmoves
  · obtain rfl := heff.invoked_mem (List.mem_singleton_self _)
    cases heff with
    | invoke => rfl
    | call _ hm => exact absurd (List.mem_singleton_self _) hm.not_invoked
  · obtain ⟨ctx, ho⟩ := hby
    have hrest : (Bus.lts config).Steps G w₁ (os ++ log₂) w :=
      (Lts.Steps.single hg hstep).trans h₂
    rw [List.append_assoc] at ho
    have hpub : pc.IsPublish := by
      obtain ⟨pc₀, hpc₀, hpub⟩ := isPublish_inv h₁ ⟨ctx, invoked_before hrest (by simp [hpc]) ho⟩
      rw [hpc] at hpc₀
      exact Option.some.inj hpc₀ ▸ hpub
    rcases hm.broker_of_publish hpub with hb | rfl
    · exact hb
    · -- the call would have returned both `Published` and an error
      have hok : .returned c .published ∈ log₁ ++ os ++ log₂ := by
        simp [hm.returned_mem.mpr rfl]
      have hpc₁ := (hlog.returned c _).mp hok
      rw [(hlog.returned c _).mp hret] at hpc₁
      cases hpc₁

/-- Call `c` has completed without an error: it has sent its event to every subscription of
    its snapshot, or has found none and cached the event if there is a cache. -/
def Completed (log : List Obs) (cacheSize : Nat) (c : CallId) : Prop :=
  .returned c .published ∈ log ∧ (InCache log c cacheSize ∨ ∃ sent, InFanOut log c sent [])

/-- No false duplicates, bounded memory. In every run a remembered key is the non-empty key
    of a call on its topic that has completed; a step that makes a call return `Duplicate`
    finds such a call in the run before it; a call that returns an error changes nothing in
    the broker; and the remembered keys of a topic are at most `DeduplicationSize`. -/
theorem no_false_duplicates (h : (Bus.lts config).Reach Lts.Always log w) :
    (∀ t k, k ∈ w.broker.remembered t →
      k ≠ [] ∧ ∃ c, PublishedKey log t k c ∧ Completed log config.normalise.cacheSize c) ∧
    (∀ a w' os c, w.step a = some (w', os) → .returned c .duplicate ∈ os →
      ∃ t k d, k ≠ [] ∧ PublishedKey log t k c ∧ PublishedKey log t k d ∧
        Completed log config.normalise.cacheSize d) ∧
    (∀ log₁ w₁ a w₂ os log₂ c ev err, (Bus.lts config).Reach Lts.Always log₁ w₁ →
      w₁.step a = some (w₂, os) → (Bus.lts config).Steps Lts.Always w₂ log₂ w →
      log = log₁ ++ os ++ log₂ → PublishedBy log c ev → .returned c (.failed err) ∈ log →
      w₂.calls c ≠ w₁.calls c → w₂.broker = w₁.broker) ∧
    ∀ t, (w.broker.remembered t).card ≤ config.normalise.deduplicationSize := by
  have hknown : ∀ t k, k ∈ w.broker.remembered t →
      k ≠ [] ∧ ∃ c, PublishedKey log t k c ∧ Completed log config.normalise.cacheSize c := by
    intro t k hk
    obtain ⟨hne, c, hkey, hret⟩ := known_inv h t k hk
    exact ⟨hne, c, hkey, hret, published_account h hret⟩
  refine ⟨hknown, ?_, ?_, remembered_card_le h⟩
  · intro a w' os c hstep ho
    obtain ⟨ev, hpc, hseen⟩ := (step_effect hstep).duplicate_mem ho
    obtain ⟨hne, d, hkey, hdone⟩ := hknown _ _ (Broker.mem_of_seen hseen)
    exact ⟨_, _, d, hne, ⟨ev, (log_inv h).publisher c _ ev hpc rfl, rfl, rfl⟩, hkey, hdone⟩
  · rintro log₁ w₁ a w₂ os log₂ c ev err h₁ hstep h₂ rfl hby hret hmoves
    exact broker_of_failed h₁ trivial hstep h₂ hby hret hmoves

end Runs

/-- A full queue makes the first call fail, and its retry is published; only then is the key
    remembered. -/
theorem no_false_duplicates_retry :
    ∃ log w, (Bus.lts ⟨1, 0, 1, .drop⟩).Reach Lts.Always log w ∧
      .returned 2 (.failed .queueFull) ∈ log ∧ .returned 3 .published ∈ log ∧
      [2] ∈ w.broker.remembered [7] ∧ (w.broker.remembered [7]).card ≤ 1 ∧
      ∃ c, PublishedKey log [7] [2] c ∧ Completed log 0 c := by
  obtain ⟨log, w, hr, hfail, hpub, hmem⟩ :=
    Lts.reach_of_runWhere (M := Bus.lts ⟨1, 0, 1, .drop⟩) (G := Lts.Always) rfl
      (Broker.subscribeRun 0 ++ Broker.publishRun 1 1 [0] ++ Broker.giveRun 1 ++
        [Action.publishLeave 1 []] ++ Broker.publishRun 2 2 [0] ++ Broker.refuseRun 2 ++
        [Action.receive 0] ++ Broker.publishRun 3 2 [0] ++ Broker.giveRun 3 ++
        [Action.publishLeave 3 [1]])
      (Q := fun r => .returned 2 (.failed .queueFull) ∈ r.2 ∧ .returned 3 .published ∈ r.2 ∧
        [2] ∈ r.1.broker.remembered [7])
      (by decide)
  obtain ⟨hknown, -, -, hcard⟩ := no_false_duplicates hr
  exact ⟨log, w, hr, hfail, hpub, hmem, hcard [7], (hknown [7] [2] hmem).2⟩

end EventBus
