import EventBus.Spec.BrokerChannel
import EventBus.Spec.BrokerFanOut

/-!
# Deduplication

`PublishWithResult` looks its idempotency key up in its first critical section and
remembers it in the second, with the whole fan-out in between. Two calls with one key
that overlap are therefore both published. Deduplication holds in the runs in which no
call enters while another call with its topic and key is in flight, that is between its
two critical sections.

## Key results

- `dedup_inv`: what is remembered, in flight and published in runs without such a race
- `dedup_atomic`: exactly one `Published` for each topic and key, and one event in each queue
- `dedup_race`: two overlapping calls are both published
-/

namespace EventBus

variable {t k : Bytes} {config : Config} {log os : List Obs} {w w' : Bus} {c : CallId}
  {a : Action} {G : Bus → Action → Prop} {p : SubPtr} {x : Copy} {n : Nat}

/-! ## Remembered keys -/

namespace Broker

variable {b b' : Broker} {topic id oldest : Bytes}

/-- `remember` adds no other key. -/
theorem mem_remember (h : b.remember topic id oldest = some b') (hk : k ∈ b'.remembered t) :
    k ∈ b.remembered t ∨ (t = topic ∧ k = id ∧ id ≠ []) := by
  simp only [remember] at h
  split at h
  · cases h
    exact .inl hk
  rename_i hid
  -- the key set of the topic becomes a part of the old one with the new key
  have hinsert : ∀ s : Finset Bytes, s ⊆ b.remembered topic →
      some ({ b with dedup := b.dedup.insert topic (insert id s) } : Broker) = some b' →
      k ∈ b.remembered t ∨ (t = topic ∧ k = id ∧ id ≠ []) := by
    intro s hs heq
    cases heq
    by_cases ht : t = topic
    · subst ht
      simp only [remembered, AList.lookup_insert, Option.getD_some, Finset.mem_insert] at hk
      rcases hk with rfl | hk
      · exact .inr ⟨rfl, rfl, fun hnil => hid (.inl hnil)⟩
      · exact .inl (hs hk)
    · simp only [remembered, AList.lookup_insert_ne ht] at hk
      exact .inl hk
  split at h
  · split at h
    · exact hinsert _ (Finset.erase_subset _ _) h
    · cases h
  · exact hinsert _ (Finset.Subset.refl _) h

/-- `remember` remembers its key, and forgets none while there is room. -/
theorem remember_mem (h : b.remember topic id oldest = some b') (hid : id ≠ [])
    (hroom : (b.remembered topic).card < b.config.deduplicationSize) :
    id ∈ b'.remembered topic ∧ ∀ t k, k ∈ b.remembered t → k ∈ b'.remembered t := by
  simp only [remember, hid, false_or, show b.config.deduplicationSize ≠ 0 by omega, if_false,
    show ¬b.config.deduplicationSize ≤ (b.remembered topic).card by omega,
    Option.some.injEq] at h
  subst h
  refine ⟨by simp [remembered], fun t k hk => ?_⟩
  by_cases ht : t = topic
  · subst ht
    simp only [remembered, AList.lookup_insert, Option.getD_some]
    exact Finset.mem_insert_of_mem hk
  · simpa only [remembered, AList.lookup_insert_ne ht] using hk

theorem seen_iff (hk : k ≠ []) (hsize : b.config.deduplicationSize ≠ 0) :
    b.seen topic k = true ↔ k ∈ b.remembered topic := by
  simp [seen, hk, hsize]

theorem mem_of_seen (h : b.seen topic k = true) : k ∈ b.remembered topic := by
  simp only [seen] at h
  split at h
  · cases h
  · exact of_decide_eq_true h

theorem remembered_congr (h : b'.dedup = b.dedup) (t : Bytes) :
    b'.remembered t = b.remembered t := by
  simp only [remembered, h]

@[simp] theorem deregister_dedup (b : Broker) (topic : Bytes) (id : UInt64) :
    (b.deregister topic id).dedup = b.dedup := by
  simp only [deregister]; split <;> [rfl; (split <;> rfl)]

@[simp] theorem takeCached_dedup (b : Broker) (topic : Bytes) (n : Nat) :
    (b.takeCached topic n).dedup = b.dedup := by
  simp only [takeCached]; split <;> [rfl; (split <;> rfl)]

end Broker

/-! ## Calls in flight -/

/-- The event of a publisher that has taken its snapshot and not yet returned. -/
def Pc.inFlight : Pc → Option Event
  | .fanOut ev _ => some ev
  | .enqueueEntered ev _ _ | .enqueueSelect ev _ _ | .enqueueExit ev _ _ _ => some ev
  | _ => none

/-- Call `c` is between its two critical sections with `ev`. -/
def Bus.InFlight (w : Bus) (c : CallId) (ev : Event) : Prop :=
  ∃ pc, w.calls c = some pc ∧ pc.inFlight = some ev

/-- Two events that count as one. -/
def SameKey (ev ev' : Event) : Prop :=
  ev.topic = ev'.topic ∧ idempotencyKey ev = idempotencyKey ev'

instance (ev ev' : Event) : Decidable (SameKey ev ev') := inferInstanceAs (Decidable (_ ∧ _))

/-- No call enters its first critical section while another call with the same topic and
    key is in flight. -/
def NoRace (w : Bus) (a : Action) : Prop :=
  ∀ c order oldest ev, a = .publishEnter c order oldest → w.calls c = some (.publish ev) →
    idempotencyKey ev ≠ [] → ∀ d ev', w.InFlight d ev' → ¬SameKey ev ev'

/-- The non-empty keys used for a topic. -/
def keysUsed (log : List Obs) (t : Bytes) : Finset Bytes :=
  (log.filterMap fun
    | .invoked _ (.publishWithResult _ ev) =>
      if ev.topic = t then some (idempotencyKey ev) else none
    | _ => none).toFinset.erase []

/-- What deduplication keeps track of. -/
structure DedupInv (log : List Obs) (w : Bus) : Prop where
  /-- A remembered key is that of a published event. -/
  known : ∀ t k, k ∈ w.broker.remembered t → k ≠ [] ∧ ∃ c ev, PublishedBy log c ev ∧
    ev.topic = t ∧ idempotencyKey ev = k ∧ .returned c .published ∈ log
  /-- The key of an event in flight is not remembered yet. -/
  fresh : ∀ c ev, w.InFlight c ev → idempotencyKey ev ∉ w.broker.remembered ev.topic
  alone : ∀ c d ev ev', w.InFlight c ev → w.InFlight d ev' → SameKey ev ev' →
    idempotencyKey ev ≠ [] → c = d
  /-- The key of a published event is remembered. -/
  done : ∀ c ev, PublishedBy log c ev → .returned c .published ∈ log → idempotencyKey ev ≠ [] →
    idempotencyKey ev ∈ w.broker.remembered ev.topic
  once : ∀ c d ev ev', PublishedBy log c ev → PublishedBy log d ev' →
    .returned c .published ∈ log → .returned d .published ∈ log → SameKey ev ev' →
    idempotencyKey ev ≠ [] → c = d

section Steps

variable {w₁ : Bus} {pc pc' : Pc} {ev : Event}

theorem Pc.event_of_inFlight (h : pc.inFlight = some ev) : pc.event = some ev := by
  cases pc <;> first | exact h | exact nomatch h

theorem mem_keysUsed :
    k ∈ keysUsed log t ↔ k ≠ [] ∧ ∃ c ev, PublishedBy log c ev ∧ ev.topic = t ∧
      idempotencyKey ev = k := by
  simp only [keysUsed, Finset.mem_erase, List.mem_toFinset, List.mem_filterMap, PublishedBy]
  refine and_congr_right fun _ => ⟨?_, ?_⟩
  · rintro ⟨o, ho, hk⟩
    split at hk
    · simp only [Option.ite_none_right_eq_some, Option.some.injEq] at hk
      exact ⟨_, _, ⟨_, ho⟩, hk⟩
    · cases hk
  · rintro ⟨c, ev, ⟨ctx, ho⟩, ht, hk⟩
    exact ⟨_, ho, by simp [ht, hk]⟩

theorem keysUsed_subset (log os : List Obs) (t : Bytes) :
    keysUsed log t ⊆ keysUsed (log ++ os) t := by
  intro k hk
  obtain ⟨hne, c, ev, hby, ht, hkey⟩ := mem_keysUsed.mp hk
  exact mem_keysUsed.mpr ⟨hne, c, ev, hby.append os, ht, hkey⟩

/-- A call gets in flight by taking its snapshot. -/
theorem Move.inFlight (h : Move w c a pc pc' w₁ os) (hev : pc'.inFlight = some ev) :
    pc.inFlight = some ev ∨ (pc = .publish ev ∧ ∃ order oldest, a = .publishEnter c order oldest ∧
      ¬(idempotencyKey ev ≠ [] ∧ w.broker.seen ev.topic (idempotencyKey ev) = true)) := by
  cases h with
  | quiet hq =>
    cases hq with
    | enqueueCheckDone | enqueueCheckOpen | enqueueCtx | enqueueDone | enqueueFull =>
      exact .inl hev
    | @closeOnceAfter _ _ rest => cases rest <;> exact nomatch hev
    | @closeWait _ drain => cases drain <;> exact nomatch hev
    | _ => cases hev
  | publishSnapshot _ _ hnew =>
    cases hev
    exact .inr ⟨rfl, _, _, rfl, hnew⟩
  | enqueueEnter | enqueueSend | enqueueReturn => exact .inl hev
  | @closeBroker order => cases order <;> exact nomatch hev
  | @closeEvents _ rest => cases rest <;> exact nomatch hev
  | _ => cases hev

/-- A step makes call `c` return `Published` with `ev` and remembers the key of `ev`. -/
structure Publishes (w : Bus) (a : Action) (w' : Bus) (os : List Obs) (c : CallId)
    (ev : Event) : Prop where
  now : w'.calls c = some (.returned .published)
  reports : ∀ d, .returned d .published ∈ os ↔ d = c
  remembers : ∃ (b : Broker) (oldest : Bytes),
    b.remember ev.topic (idempotencyKey ev) oldest = some w'.broker ∧
      b.dedup = w.broker.dedup ∧ b.config = w.broker.config
  /-- The call leaves the fan-out, or it has found no subscriber and no remembered key. -/
  origin : w.calls c = some (.fanOut ev []) ∨
    (w.calls c = some (.publish ev) ∧ (∃ order oldest, a = .publishEnter c order oldest) ∧
      ¬(idempotencyKey ev ≠ [] ∧ w.broker.seen ev.topic (idempotencyKey ev) = true))

/-- A step leaves the remembered keys alone, or makes one call return `Published`. -/
theorem Effect.published_cases (h : Effect w a w' os) :
    ((∀ t, w'.broker.remembered t = w.broker.remembered t) ∧ ∀ c, .returned c .published ∉ os) ∨
      ∃ c ev, Publishes w a w' os c ev := by
  cases h with
  | @call c _ _ _ _ _ hpc hm =>
    cases hm with
    | quiet hq =>
      refine .inl ⟨fun _ => rfl, fun d ho => ?_⟩
      obtain ⟨r, hr, heq⟩ := Pc.mem_report.mp ho
      obtain ⟨-, rfl⟩ := Obs.returned.inj heq
      cases hq with
      | @closeOnceAfter _ _ rest => cases rest <;> exact nomatch hr
      | @closeWait _ drain => cases drain <;> exact nomatch hr
      | _ => cases hr
    | @publishCached oldest ev b _ _ hnew _ hrem =>
      exact .inr ⟨c, ev, by simp, by simp, ⟨_, oldest, hrem, by simp, by simp⟩,
        .inr ⟨hpc, ⟨_, _, rfl⟩, hnew⟩⟩
    | @publishLeave oldest ev b hrem =>
      exact .inr ⟨c, ev, by simp, by simp, ⟨_, oldest, hrem, rfl, rfl⟩, .inl hpc⟩
    | subscribe =>
      refine .inl ⟨fun t => Broker.remembered_congr ?_ t, by simp⟩
      simp [Bus.subscribeBroker, Broker.register]
    | closeDeregister =>
      exact .inl ⟨fun t => Broker.remembered_congr (Broker.deregister_dedup _ _ _) t, by simp⟩
    | @closeBroker order =>
      refine .inl ⟨fun _ => rfl, fun d ho => ?_⟩
      cases order <;> simp [Pc.closeNext] at ho
    | @closeEvents _ rest =>
      refine .inl ⟨fun _ => rfl, fun d ho => ?_⟩
      cases rest <;> simp [Pc.closeNext] at ho
    | _ => exact .inl ⟨fun _ => rfl, by simp⟩
  | _ => exact .inl ⟨fun _ => rfl, by simp⟩

/-- What is in flight after a step was so before, or has just passed the check. -/
theorem Effect.inFlight (h : Effect w a w' os) (hfl : w'.InFlight c ev) :
    w.InFlight c ev ∨ (w.calls c = some (.publish ev) ∧
      (∃ order oldest, a = .publishEnter c order oldest) ∧
      ¬(idempotencyKey ev ≠ [] ∧ w.broker.seen ev.topic (idempotencyKey ev) = true)) := by
  obtain ⟨pc, hpc, hev⟩ := hfl
  rcases h.cases_call c with ⟨hsame, -⟩ | ⟨op, -, hpc', -⟩ | ⟨pc₀, pc', w₁, hpc₀, hm, rfl⟩
  · exact .inl ⟨pc, hsame ▸ hpc, hev⟩
  · rw [hpc'] at hpc
    cases hpc
    cases op <;> exact nomatch hev
  · rw [Bus.setPc_calls_self] at hpc
    cases hpc
    rcases hm.inFlight hev with hold | ⟨rfl, order, oldest, ha, hnew⟩
    · exact .inl ⟨pc₀, hpc₀, hold⟩
    · exact .inr ⟨hpc₀, ⟨order, oldest, ha⟩, hnew⟩

theorem Publishes.publishedBy (h : Publishes w a w' os c ev) (hlog : LogInv log w) :
    PublishedBy log c ev := by
  rcases h.origin with hpc | ⟨hpc, -⟩
  · exact hlog.publisher c _ ev hpc rfl
  · exact hlog.publisher c _ ev hpc rfl

/-- A key that passed the check is not remembered. -/
private theorem not_remembered_of_unseen
    (hsize : ∀ t, (keysUsed log t).card ≤ w.broker.config.deduplicationSize)
    (hinv : DedupInv log w) (hby : PublishedBy log c ev)
    (hnew : ¬(idempotencyKey ev ≠ [] ∧ w.broker.seen ev.topic (idempotencyKey ev) = true)) :
    idempotencyKey ev ∉ w.broker.remembered ev.topic := by
  intro hmem
  have hk := (hinv.known _ _ hmem).1
  have hused : idempotencyKey ev ∈ keysUsed log ev.topic :=
    mem_keysUsed.mpr ⟨hk, c, ev, hby, rfl, rfl⟩
  have hpos := Finset.card_pos.mpr ⟨_, hused⟩
  have hle := hsize ev.topic
  exact hnew ⟨hk, (Broker.seen_iff hk (by omega)).mpr hmem⟩

/-- A key that is about to be remembered is new, and there is room for it. -/
private theorem Publishes.new_key (h : Publishes w a w' os c ev) (hlog : LogInv log w)
    (hsize : ∀ t, (keysUsed log t).card ≤ w.broker.config.deduplicationSize)
    (hinv : DedupInv log w) (hk : idempotencyKey ev ≠ []) :
    idempotencyKey ev ∉ w.broker.remembered ev.topic ∧
      (w.broker.remembered ev.topic).card < w.broker.config.deduplicationSize := by
  have hnew : idempotencyKey ev ∉ w.broker.remembered ev.topic := by
    rcases h.origin with hpc | ⟨-, -, hunseen⟩
    · exact hinv.fresh c ev ⟨_, hpc, rfl⟩
    · exact not_remembered_of_unseen hsize hinv (h.publishedBy hlog) hunseen
  refine ⟨hnew, ?_⟩
  -- the remembered keys and the new one have all been used
  have hsub : insert (idempotencyKey ev) (w.broker.remembered ev.topic) ⊆
      keysUsed log ev.topic := by
    intro k hmem
    rcases Finset.mem_insert.mp hmem with rfl | hmem
    · exact mem_keysUsed.mpr ⟨hk, c, ev, h.publishedBy hlog, rfl, rfl⟩
    · obtain ⟨hne, d, ev', hby, ht, hkey, -⟩ := hinv.known _ k hmem
      exact mem_keysUsed.mpr ⟨hne, d, ev', hby, ht, hkey⟩
  have hcard := (Finset.card_le_card hsub).trans (hsize ev.topic)
  rw [Finset.card_insert_of_notMem hnew] at hcard
  omega

/-- What is remembered after a call has returned `Published`. -/
theorem Publishes.mem_remembered (h : Publishes w a w' os c ev)
    (hmem : k ∈ w'.broker.remembered t) :
    k ∈ w.broker.remembered t ∨
      (t = ev.topic ∧ k = idempotencyKey ev ∧ idempotencyKey ev ≠ []) := by
  obtain ⟨b, oldest, hrem, hdedup, -⟩ := h.remembers
  rw [← Broker.remembered_congr hdedup]
  exact Broker.mem_remember hrem hmem

/-- The key of a call that returns `Published` is remembered. -/
private theorem Publishes.remembered (h : Publishes w a w' os c ev) (hlog : LogInv log w)
    (hsize : ∀ t, (keysUsed log t).card ≤ w.broker.config.deduplicationSize)
    (hinv : DedupInv log w) (hk : idempotencyKey ev ≠ []) :
    idempotencyKey ev ∈ w'.broker.remembered ev.topic := by
  obtain ⟨b, oldest, hrem, hdedup, hconf⟩ := h.remembers
  have hroom := (h.new_key hlog hsize hinv hk).2
  simp only [← Broker.remembered_congr hdedup, ← hconf] at hroom
  exact (Broker.remember_mem hrem hk hroom).1

/-- Nothing is forgotten when a call returns `Published`. -/
private theorem Publishes.keeps (h : Publishes w a w' os c ev) (hlog : LogInv log w)
    (hsize : ∀ t, (keysUsed log t).card ≤ w.broker.config.deduplicationSize)
    (hinv : DedupInv log w) (hmem : k ∈ w.broker.remembered t) :
    k ∈ w'.broker.remembered t := by
  obtain ⟨b, oldest, hrem, hdedup, hconf⟩ := h.remembers
  rw [← Broker.remembered_congr hdedup] at hmem
  by_cases hk : idempotencyKey ev = []
  · simp only [Broker.remember, hk, true_or, if_true, Option.some.injEq] at hrem
    exact hrem ▸ hmem
  · have hroom := (h.new_key hlog hsize hinv hk).2
    simp only [← Broker.remembered_congr hdedup, ← hconf] at hroom
    exact (Broker.remember_mem hrem hk hroom).2 t k hmem

/-- A call that has just returned is not in flight, nor has another call just entered. -/
theorem Publishes.inFlight (hp : Publishes w a w' os c ev) (h : Effect w a w' os)
    {d : CallId} {ev' : Event} (hfl : w'.InFlight d ev') : d ≠ c ∧ w.InFlight d ev' := by
  have hne : d ≠ c := by
    rintro rfl
    obtain ⟨pc, hpc, hev⟩ := hfl
    rw [hp.now] at hpc
    cases hpc
    cases hev
  refine ⟨hne, ?_⟩
  rcases h.cases_call d with ⟨hsame, -⟩ | ⟨op, -, -, rfl⟩ | ⟨pc₀, pc', w₁, hpc₀, hm, rfl⟩
  · obtain ⟨pc, hpc, hev⟩ := hfl
    exact ⟨pc, hsame ▸ hpc, hev⟩
  · simpa using (hp.reports c).mpr rfl
  · exact absurd (hm.actor ((hp.reports c).mpr rfl) rfl).symm hne

/-- What was published before a step: the call and its event were known already. -/
private theorem published_old (h : Effect w a w' os) (hlog : LogInv log w)
    (hby : PublishedBy (log ++ os) c ev) (hret : .returned c .published ∈ log) :
    PublishedBy log c ev := by
  obtain ⟨ctx, ho⟩ := hby
  rcases List.mem_append.mp ho with ho | ho
  · exact ⟨ctx, ho⟩
  · have hpc := (hlog.returned c _).mp hret
    exact absurd ho (not_invoked_again h (by simp [hpc]) _)

/-- A remembered key is that of a published event, after every step. -/
theorem known_step (h : Effect w a w' os) (hlog : LogInv log w)
    (hknown : ∀ t k, k ∈ w.broker.remembered t → k ≠ [] ∧ ∃ c ev, PublishedBy log c ev ∧
      ev.topic = t ∧ idempotencyKey ev = k ∧ .returned c .published ∈ log) :
    ∀ t k, k ∈ w'.broker.remembered t → k ≠ [] ∧ ∃ c ev, PublishedBy (log ++ os) c ev ∧
      ev.topic = t ∧ idempotencyKey ev = k ∧ .returned c .published ∈ log ++ os := by
  intro t k hmem
  have hold : k ∈ w.broker.remembered t → k ≠ [] ∧ ∃ c ev, PublishedBy (log ++ os) c ev ∧
      ev.topic = t ∧ idempotencyKey ev = k ∧ .returned c .published ∈ log ++ os := by
    intro hmem
    obtain ⟨hne, c, ev, hby, ht, hk, hret⟩ := hknown t k hmem
    exact ⟨hne, c, ev, hby.append os, ht, hk, List.mem_append_left _ hret⟩
  rcases h.published_cases with ⟨hsame, -⟩ | ⟨c, ev, hp⟩
  · exact hold (hsame t ▸ hmem)
  · rcases hp.mem_remembered hmem with hmem | ⟨rfl, rfl, hk⟩
    · exact hold hmem
    · exact ⟨hk, c, ev, (hp.publishedBy hlog).append os, rfl, rfl,
        List.mem_append_right _ ((hp.reports c).mpr rfl)⟩

/-- Every step without a race keeps track of the keys. -/
theorem dedup_step (h : Effect w a w' os) (hg : NoRace w a) (hlog : LogInv log w)
    (hlog' : LogInv (log ++ os) w')
    (hsize : ∀ t, (keysUsed log t).card ≤ w.broker.config.deduplicationSize)
    (hinv : DedupInv log w) : DedupInv (log ++ os) w' where
  known := known_step h hlog hinv.known
  fresh d ev' hfl hmem := by
    rcases h.published_cases with ⟨hsame, -⟩ | ⟨c, ev, hp⟩
    · rw [hsame] at hmem
      rcases h.inFlight hfl with hfl | ⟨hpc, -, hunseen⟩
      · exact hinv.fresh d ev' hfl hmem
      · exact not_remembered_of_unseen hsize hinv (hlog.publisher d _ ev' hpc rfl) hunseen hmem
    · obtain ⟨hne, hfl⟩ := hp.inFlight h hfl
      rcases hp.mem_remembered hmem with hmem | ⟨ht, hk, hk'⟩
      · exact hinv.fresh d ev' hfl hmem
      · -- two calls with one key: both in flight, or a race
        rcases hp.origin with hpc | ⟨hpc, ⟨order, oldest, ha⟩, -⟩
        · exact hne (hinv.alone d c ev' ev hfl ⟨_, hpc, rfl⟩ ⟨ht, hk⟩ (hk ▸ hk'))
        · exact hg c order oldest ev ha hpc hk' d ev' hfl ⟨ht.symm, hk.symm⟩
  alone c d ev ev' hc hd hsame hk := by
    -- `NoRace` keeps a call out while another with its key is in flight
    rcases h.inFlight hc with hc' | ⟨hpc, ⟨order, oldest, ha⟩, -⟩ <;>
      rcases h.inFlight hd with hd' | ⟨hpd, ⟨order', oldest', ha'⟩, -⟩
    · exact hinv.alone c d ev ev' hc' hd' hsame hk
    · exact absurd ⟨hsame.1.symm, hsame.2.symm⟩
        (hg d order' oldest' ev' ha' hpd (hsame.2 ▸ hk) c ev hc')
    · exact absurd hsame (hg c order oldest ev ha hpc hk d ev' hd')
    · rw [ha] at ha'
      exact (Action.publishEnter.inj ha').1
  done c ev hby hret hk := by
    rcases h.published_cases with ⟨hsame, hnot⟩ | ⟨d, ev', hp⟩
    · have hold := (List.mem_append.mp hret).resolve_right (hnot c)
      rw [hsame]
      exact hinv.done c ev (published_old h hlog hby hold) hold hk
    · rcases List.mem_append.mp hret with hold | hnew
      · exact hp.keeps hlog hsize hinv (hinv.done c ev (published_old h hlog hby hold) hold hk)
      · obtain rfl := (hp.reports c).mp hnew
        obtain rfl := hlog'.event_unique hby ((hp.publishedBy hlog).append os)
        exact hp.remembered hlog hsize hinv hk
  once c d ev ev' hbyc hbyd hretc hretd hsame hk := by
    rcases h.published_cases with ⟨-, hnot⟩ | ⟨e, ev₀, hp⟩
    · have holdc := (List.mem_append.mp hretc).resolve_right (hnot c)
      have holdd := (List.mem_append.mp hretd).resolve_right (hnot d)
      exact hinv.once c d ev ev' (published_old h hlog hbyc holdc)
        (published_old h hlog hbyd holdd) holdc holdd hsame hk
    · -- the key of the call that returns now was not remembered, as those of the others are
      have hother : ∀ c ev, PublishedBy (log ++ os) c ev → .returned c .published ∈ log →
          idempotencyKey ev ≠ [] → ¬SameKey ev ev₀ := by
        rintro c ev hby hold hk ⟨ht, hkey⟩
        have hmem := hinv.done c ev (published_old h hlog hby hold) hold hk
        rw [ht, hkey] at hmem
        exact (hp.new_key hlog hsize hinv (hkey ▸ hk)).1 hmem
      have hthis : ∀ c ev, PublishedBy (log ++ os) c ev → .returned c .published ∈ os →
          c = e ∧ ev = ev₀ := by
        intro c ev hby hnew
        obtain rfl := (hp.reports c).mp hnew
        exact ⟨rfl, hlog'.event_unique hby ((hp.publishedBy hlog).append os)⟩
      rcases List.mem_append.mp hretc with holdc | hnewc <;>
        rcases List.mem_append.mp hretd with holdd | hnewd
      · exact hinv.once c d ev ev' (published_old h hlog hbyc holdc)
          (published_old h hlog hbyd holdd) holdc holdd hsame hk
      · obtain ⟨-, rfl⟩ := hthis d ev' hbyd hnewd
        exact absurd hsame (hother c ev hbyc holdc hk)
      · obtain ⟨-, rfl⟩ := hthis c ev hbyc hnewc
        exact absurd ⟨hsame.1.symm, hsame.2.symm⟩ (hother d ev' hbyd holdd (hsame.2 ▸ hk))
      · rw [(hthis c ev hbyc hnewc).1, (hthis d ev' hbyd hnewd).1]

end Steps

/-- In runs without a race and with room for all keys, the tracking of keys holds. -/
theorem dedup_inv (h : (Bus.lts config).Reach NoRace log w)
    (hsize : ∀ t, (keysUsed log t).card ≤ config.normalise.deduplicationSize) :
    DedupInv log w := by
  have hall : (∀ t, (keysUsed log t).card ≤ config.normalise.deduplicationSize) →
      DedupInv log w := by
    refine h.induct_reach (P := fun log w => (∀ t, (keysUsed log t).card ≤
      config.normalise.deduplicationSize) → DedupInv log w) ?_ ?_
    · rintro _ rfl -
      refine ⟨?_, ?_, ?_, ?_, ?_⟩ <;>
        simp [new, Broker.remembered, Bus.InFlight, PublishedBy]
    · intro log w a w' os hr ih hg hstep hsize'
      have hsize : ∀ t, (keysUsed log t).card ≤ config.normalise.deduplicationSize := fun t =>
        (Finset.card_le_card (keysUsed_subset log os t)).trans (hsize' t)
      refine dedup_step (step_effect hstep) hg (log_inv hr) (log_inv (hr.next hg hstep)) ?_
        (ih hsize)
      rwa [config_inv hr]
  exact hall hsize

/-! ## The results of the calls -/

/-- Program counters of a call of `PublishWithResult`. -/
def Pc.IsPublish : Pc → Prop
  | .publish _ | .fanOut _ _ | .enqueueEntered _ _ _ | .enqueueSelect _ _ _
  | .enqueueExit _ _ _ _ | .panicked => True
  | .returned r => r = .published ∨ r = .duplicate ∨ ∃ err, r = .failed err
  | _ => False

theorem Move.isPublish {w₁ : Bus} {pc pc' : Pc} (h : Move w c a pc pc' w₁ os) (hpc : pc.IsPublish) :
    pc'.IsPublish := by
  cases h with
  | quiet hq =>
    cases hq with
    | publishClosed | publishDraining | publishDuplicate | enqueueClosed =>
      simp [Pc.IsPublish]
    | enqueueCheckDone | enqueueCheckOpen | enqueueCtx | enqueueDone | enqueueFull => trivial
    | _ => exact hpc.elim
  | publishCached | publishLeave | enqueueFail => simp [Pc.IsPublish]
  | publishSnapshot | enqueueEnter | enqueueSend | enqueuePanic | enqueueReturn => trivial
  | _ => exact hpc.elim

/-- A call of `PublishWithResult` has returned a publish result or an error, or is still
    running. -/
theorem isPublish_inv (h : (Bus.lts config).Reach G log w) {ev : Event}
    (hby : PublishedBy log c ev) :
    ∃ pc, w.calls c = some pc ∧ pc.IsPublish := by
  revert hby
  refine h.induct_reach
    (P := fun log w => PublishedBy log c ev → ∃ pc, w.calls c = some pc ∧ pc.IsPublish) ?_ ?_
  · simp [PublishedBy]
  · rintro log w a w' os hr ih - hstep ⟨ctx, ho⟩
    rcases (step_effect hstep).cases_call c with
      ⟨hsame, hnot⟩ | ⟨op, hnone, hpc', rfl⟩ | ⟨pc, pc', w₁, hpc, hm, rfl⟩
    · rw [hsame]
      exact ih ⟨ctx, (List.mem_append.mp ho).resolve_right fun ho => hnot _ ho rfl⟩
    · have hnew := (List.mem_append.mp ho).resolve_left fun ho => (log_inv hr).invoked c _ ho hnone
      obtain ⟨-, rfl⟩ := Obs.invoked.inj (List.mem_singleton.mp hnew)
      exact ⟨_, hpc', trivial⟩
    · obtain ⟨pc₀, hpc₀, hpub⟩ := ih ⟨ctx, (List.mem_append.mp ho).resolve_right hm.not_invoked⟩
      rw [hpc] at hpc₀
      cases hpc₀
      exact ⟨pc', Bus.setPc_calls_self _ _ _, hm.isPublish hpub⟩

/-- A call whose event was put in a queue is in flight, is published, or has failed after it
    had sent the event there. -/
theorem given_status (h : (Bus.lts config).Reach G log w) (hx : x ∈ given log p) :
    PublishedBy log x.call x.event ∧
      (w.InFlight x.call x.event ∨ .returned x.call .published ∈ log ∨
        p ∈ directs log x.call ∧ ∃ err, .returned x.call (.failed err) ∈ log) := by
  have hlog := log_inv h
  obtain ⟨route, ho⟩ := mem_given.mp hx
  have hby := (hlog.put p x route ho).1
  refine ⟨hby, ?_⟩
  -- what a call that has cached nothing put in a queue it has sent there
  have hdirect : cachings log x.call = [] → p ∈ directs log x.call := by
    intro hcach
    have hrep := replays_le h x.call
    rw [hcach, List.length_nil, Nat.le_zero, List.length_eq_zero_iff] at hrep
    have hcount := given_countP log x.call p
    rw [hrep, List.count_nil, Nat.add_zero] at hcount
    rw [← List.count_pos_iff, ← hcount]
    exact List.countP_pos_iff.mpr ⟨x, hx, decide_eq_true rfl⟩
  have htouched : ¬Untouched log x.call := by
    rintro ⟨-, hdir, hcach⟩
    have hmem := hdirect hcach
    rw [hdir] at hmem
    cases hmem
  obtain ⟨pc, hpc, hpub⟩ := isPublish_inv h hby
  have hacc := account_inv h x.call
  rw [Accounted, hpc] at hacc
  have hflight : ∀ ev, pc.inFlight = some ev → w.InFlight x.call x.event := by
    intro ev hev
    obtain rfl := hlog.event_unique hby (hlog.publisher _ pc ev hpc (Pc.event_of_inFlight hev))
    exact ⟨pc, hpc, hev⟩
  cases pc with
  | publish => exact absurd hacc htouched
  | fanOut | enqueueEntered | enqueueSelect | enqueueExit => exact .inl (hflight _ rfl)
  | panicked =>
    obtain ⟨s, ho⟩ := hlog.panicked _ hpc
    exact absurd ho (not_panicked h s)
  | returned r =>
    have hret := (hlog.returned _ r).mpr hpc
    rcases hpub with rfl | rfl | ⟨err, rfl⟩
    · exact .inr (.inl hret)
    · exact absurd hacc htouched
    · rcases hacc with hun | ⟨sent, todo, -, -, -, hcach⟩
      · exact absurd hun htouched
      · exact .inr (.inr ⟨hdirect hcach, err, hret⟩)
  | _ => exact hpub.elim

/-- Where no call fails, a call whose event was put in a queue is in flight or published. -/
private theorem inFlight_or_published (h : (Bus.lts config).Reach G log w)
    (hok : ∀ c ev err, PublishedBy log c ev → .returned c (.failed err) ∉ log)
    (hx : x ∈ given log p) :
    PublishedBy log x.call x.event ∧
      (w.InFlight x.call x.event ∨ .returned x.call .published ∈ log) := by
  obtain ⟨hby, hfl | hpub | ⟨-, err, hfail⟩⟩ := given_status h hx
  · exact ⟨hby, .inl hfl⟩
  · exact ⟨hby, .inr hpub⟩
  · exact absurd hfail (hok _ _ err hby)

/-- A call returns `Duplicate` because its key is remembered. -/
theorem Effect.duplicate_mem (h : Effect w a w' os) (ho : .returned c .duplicate ∈ os) :
    ∃ ev, w.calls c = some (.publish ev) ∧
      w.broker.seen ev.topic (idempotencyKey ev) = true := by
  rcases h.cases_call c with ⟨-, hnot⟩ | ⟨op, -, -, rfl⟩ | ⟨pc, pc', w₁, hpc, hm, -⟩
  · exact absurd rfl (hnot _ ho)
  · simp at ho
  · have hpc' := hm.returned_mem.mp ho
    cases hm with
    | quiet hq =>
      cases hq with
      | publishDuplicate _ hseen => exact ⟨_, hpc, hseen⟩
      | @closeOnceAfter _ _ rest => cases rest <;> exact nomatch hpc'
      | @closeWait _ drain => cases drain <;> exact nomatch hpc'
      | _ => cases hpc'
    | @closeBroker order => cases order <;> exact nomatch hpc'
    | @closeEvents _ rest => cases rest <;> exact nomatch hpc'
    | _ => cases hpc'

/-- Call `c` published an event with topic `t` and key `k`. -/
def PublishedKey (log : List Obs) (t k : Bytes) (c : CallId) : Prop :=
  ∃ ev, PublishedBy log c ev ∧ ev.topic = t ∧ idempotencyKey ev = k

/-- Behind every `Duplicate` there is a `Published`. -/
private theorem published_of_duplicate (h : (Bus.lts config).Reach NoRace log w)
    (hsize : ∀ t, (keysUsed log t).card ≤ config.normalise.deduplicationSize)
    (hc : PublishedKey log t k c) (hret : .returned c .duplicate ∈ log) :
    ∃ d, PublishedKey log t k d ∧ .returned d .published ∈ log := by
  obtain ⟨w₀, hinit, hsteps⟩ := h
  obtain ⟨log₁, w₁, a, w₂, os, log₂, h₁, -, hstep, ho, -, heq⟩ := hsteps.exists_step_of_mem hret
  have hlog := log_inv ⟨w₀, hinit, hsteps⟩
  have hreach₁ : (Bus.lts config).Reach NoRace log₁ w₁ := ⟨w₀, hinit, h₁⟩
  obtain ⟨ev, hpc, hseen⟩ := (step_effect hstep).duplicate_mem ho
  rw [List.append_assoc] at heq
  have hsize₁ : ∀ t, (keysUsed log₁ t).card ≤ config.normalise.deduplicationSize := fun t =>
    (Finset.card_le_card (keysUsed_subset log₁ (os ++ log₂) t)).trans (heq ▸ hsize t)
  have hmem := Broker.mem_of_seen hseen
  obtain ⟨-, d, ev', hby, ht, hkey, hpub⟩ := (dedup_inv hreach₁ hsize₁).known _ _ hmem
  obtain ⟨evc, hbyc, rfl, rfl⟩ := hc
  have hev : ev = evc := by
    refine hlog.event_unique ?_ hbyc
    rw [heq]
    exact ((log_inv hreach₁).publisher c _ ev hpc rfl).append _
  subst hev
  exact ⟨d, ⟨ev', by rw [heq]; exact hby.append _, ht, hkey⟩, by rw [heq]; simp [hpub]⟩

/-- If the events with one key in a queue belong to one call, there is one at most, as a call
    gives a queue one copy. -/
theorem given_key_le_one {config : Config} {G : Bus → Action → Prop} {log : List Obs} {w : Bus}
    (h : (Bus.lts config).Reach G log w) {p : SubPtr} {t k : Bytes}
    (hone : ∀ x ∈ given log p, ∀ y ∈ given log p, SameKey x.event y.event →
      idempotencyKey x.event = k → x.call = y.call) :
    ((given log p).countP fun x => x.event.topic = t ∧ idempotencyKey x.event = k) ≤ 1 := by
  by_cases hnone : ∃ x ∈ given log p, x.event.topic = t ∧ idempotencyKey x.event = k
  · obtain ⟨x, hx, rfl, rfl⟩ := hnone
    refine le_trans ?_ (given_le_one h x.call p)
    refine List.countP_mono_left fun y hy hkey => decide_eq_true ?_
    have hsame : SameKey y.event x.event := of_decide_eq_true hkey
    exact hone y hy x hx hsame hsame.2
  · rw [List.countP_eq_zero.mpr fun x hx hkey => hnone ⟨x, hx, of_decide_eq_true hkey⟩]
    exact Nat.zero_le _

/-- Deduplication in runs without a race: if no publish fails and there is room for all the
    keys used, then of the calls with one topic and one non-empty key every one that has
    returned has returned `Published` or `Duplicate`, exactly one of them `Published`, and
    no queue was given more than one event with that topic and key. -/
theorem dedup_atomic {config : Config} {log : List Obs} {w : Bus}
    (h : (Bus.lts config).Reach NoRace log w)
    (hsize : ∀ t, (keysUsed log t).card ≤ config.normalise.deduplicationSize)
    (hok : ∀ c ev err, PublishedBy log c ev → .returned c (.failed err) ∉ log)
    (t k : Bytes) (hk : k ≠ []) :
    (∀ c r, PublishedKey log t k c → .returned c r ∈ log → r = .published ∨ r = .duplicate) ∧
    ((∃ c r, PublishedKey log t k c ∧ .returned c r ∈ log) →
      ∃! c, PublishedKey log t k c ∧ .returned c .published ∈ log) ∧
    ∀ p, ((given log p).countP fun x =>
      x.event.topic = t ∧ idempotencyKey x.event = k) ≤ 1 := by
  have hinv := dedup_inv h hsize
  have hlog := log_inv h
  have hresult : ∀ c r, PublishedKey log t k c → .returned c r ∈ log →
      r = .published ∨ r = .duplicate := by
    rintro c r ⟨ev, hby, -⟩ hret
    obtain ⟨pc, hpc, hpub⟩ := isPublish_inv h hby
    rw [(hlog.returned c r).mp hret] at hpc
    cases hpc
    rcases hpub with rfl | rfl | ⟨err, rfl⟩
    · exact .inl rfl
    · exact .inr rfl
    · exact absurd hret (hok c ev err hby)
  refine ⟨hresult, ?_, fun p => ?_⟩
  · rintro ⟨c, r, hc, hret⟩
    obtain ⟨d, hd, hpub⟩ : ∃ d, PublishedKey log t k d ∧ .returned d .published ∈ log := by
      rcases hresult c r hc hret with rfl | rfl
      · exact ⟨c, hc, hret⟩
      · exact published_of_duplicate h hsize hc hret
    refine ⟨d, ⟨hd, hpub⟩, ?_⟩
    rintro e ⟨he, hpub'⟩
    obtain ⟨ev, hby, rfl, rfl⟩ := hd
    obtain ⟨ev', hby', ht, hkey⟩ := he
    exact hinv.once e d ev' ev hby' hby hpub' hpub ⟨ht, hkey⟩ (hkey ▸ hk)
  · refine given_key_le_one h fun x hx y hy hsame hkey => ?_
    have hkx : idempotencyKey x.event ≠ [] := hkey ▸ hk
    have hky : idempotencyKey y.event ≠ [] := hsame.2 ▸ hkx
    obtain ⟨hbyx, hstx⟩ := inFlight_or_published h hok hx
    obtain ⟨hbyy, hsty⟩ := inFlight_or_published h hok hy
    -- an event in flight has a key that is not remembered, and a published one's is
    rcases hstx with hflx | hpubx <;> rcases hsty with hfly | hpuby
    · exact hinv.alone _ _ _ _ hflx hfly hsame hkx
    · refine absurd (hinv.done _ _ hbyy hpuby hky) ?_
      rw [← hsame.1, ← hsame.2]
      exact hinv.fresh _ _ hflx
    · refine absurd (hinv.done _ _ hbyx hpubx hkx) ?_
      rw [hsame.1, hsame.2]
      exact hinv.fresh _ _ hfly
    · exact hinv.once _ _ _ _ hbyx hbyy hpubx hpuby hsame hkx

/-! ## Concrete runs -/

theorem keysUsed_card_le (log : List Obs) (t : Bytes) : (keysUsed log t).card ≤ log.length :=
  Finset.card_erase_le.trans ((List.toFinset_card_le _).trans (List.length_filterMap_le _ _))

/-- The errors that calls have returned. -/
def failures (log : List Obs) : List Err :=
  log.filterMap fun
    | .returned _ (.failed err) => some err
    | _ => none

private theorem not_failed_of (h : failures log = []) (c : CallId) (err : Err) :
    .returned c (.failed err) ∉ log := by
  intro ho
  have hmem : err ∈ failures log := List.mem_filterMap.mpr ⟨_, ho, rfl⟩
  rw [h] at hmem
  cases hmem

/-- If only calls below `n` are made, there are no others. -/
theorem calls_below_step (h : Effect w a w' os) (hnone : ∀ d, n ≤ d → w.calls d = none)
    (hlt : ∀ c op, a = .invoke c op → c < n) (d : CallId) (hd : n ≤ d) : w'.calls d = none := by
  rcases h.cases_call d with ⟨hsame, -⟩ | ⟨op, -, -, rfl⟩ | ⟨pc, pc', w₁, hpc, -, -⟩
  · rw [hsame, hnone d hd]
  · exact absurd hd (Nat.not_le_of_lt (hlt d op (h.invoked_mem (List.mem_singleton_self _))))
  · rw [hnone d hd] at hpc
    cases hpc

/-- The call a step invokes. -/
def invokes : Action → Option CallId
  | .invoke c _ => some c
  | _ => none

/-- Is the step a first critical section of `PublishWithResult`? -/
private def enters : Action → Bool
  | .publishEnter _ _ _ => true
  | _ => false

/-- Only calls below `n` are made, and no call enters its first critical section while one
    of them is in flight. -/
private def Sequential (n : Nat) (w : Bus) (a : Action) : Prop :=
  (∀ c ∈ invokes a, c < n) ∧
    (enters a = true → ∀ d < n, ∀ pc ∈ w.calls d, pc.inFlight = none)

private instance (n : Nat) (w : Bus) (a : Action) : Decidable (Sequential n w a) :=
  inferInstanceAs (Decidable (_ ∧ _))

/-- Sequential calls do not race. -/
private theorem noRace_of_sequential (h : (Bus.lts config).Reach (Sequential n) log w) :
    (Bus.lts config).Reach NoRace log w := by
  obtain ⟨w₀, hinit, hsteps⟩ := h
  refine ⟨w₀, hinit, hsteps.strengthen (P := fun w => ∀ d, n ≤ d → w.calls d = none) ?_ ?_ ?_⟩
  · obtain rfl : w₀ = new config := hinit
    exact fun _ _ => rfl
  · intro w a w' os hnone hg hstep
    refine calls_below_step (step_effect hstep) hnone fun c op ha => hg.1 c ?_
    rw [ha]
    rfl
  · rintro w a hnone hg c order oldest ev rfl - - d ev' ⟨pc, hpc, hev⟩
    by_cases hd : d < n
    · rw [hg.2 rfl d hd pc hpc] at hev
      cases hev
    · rw [hnone d (Nat.le_of_not_lt hd)] at hpc
      cases hpc

/-- A retry after the first call has returned: it is a duplicate, and the queue holds one
    event. -/
theorem dedup_atomic_retry :
    ∃ log w, (Bus.lts ⟨2, 0, 32, .block⟩).Reach NoRace log w ∧ .returned 2 .duplicate ∈ log ∧
      (∃! c, PublishedKey log [7] [1] c ∧ .returned c .published ∈ log) ∧
      ((given log 0).countP fun x => x.event.topic = [7] ∧ idempotencyKey x.event = [1]) ≤ 1 := by
  obtain ⟨log, w, hr, hlen, hfail, hcall, hdup⟩ :=
    Lts.reach_of_runWhere (M := Bus.lts ⟨2, 0, 32, .block⟩) (G := Sequential 3) rfl
      (Broker.subscribeRun 0 ++ Broker.publishRun 1 1 [0] ++ Broker.giveRun 1 ++
        [Action.publishLeave 1 []] ++ Broker.publishRun 2 1 [0])
      (Q := fun r => r.2.length ≤ 32 ∧ failures r.2 = [] ∧
        .invoked 2 (.publishWithResult .background ⟨[1], [], [7], [], []⟩) ∈ r.2 ∧
        .returned 2 .duplicate ∈ r.2)
      (by decide)
  have h := noRace_of_sequential hr
  obtain ⟨-, hone, hqueue⟩ := dedup_atomic h (fun t => (keysUsed_card_le log t).trans hlen)
    (fun c _ err _ => not_failed_of hfail c err) [7] [1] (by simp)
  exact ⟨log, w, h, hdup, hone ⟨2, _, ⟨_, ⟨_, hcall⟩, rfl, rfl⟩, hdup⟩, hqueue 0⟩

/-- Two calls with one key that both pass the check before either has remembered it: both
    return `Published`, without an error and with room for more keys, and the queue of the
    subscription is given the event twice. -/
theorem dedup_race :
    ∃ log w, (Bus.lts ⟨2, 0, 32, .block⟩).Reach Lts.Always log w ∧
      (∀ t, (keysUsed log t).card ≤ 32) ∧ (∀ c err, .returned c (.failed err) ∉ log) ∧
      PublishedKey log [7] [1] 1 ∧ .returned 1 .published ∈ log ∧
      PublishedKey log [7] [1] 2 ∧ .returned 2 .published ∈ log ∧
      ((given log 0).countP fun x => x.event.topic = [7] ∧ idempotencyKey x.event = [1]) = 2 := by
  obtain ⟨log, w, hr, hlen, hfail, ⟨hcall₁, hpub₁⟩, ⟨hcall₂, hpub₂⟩, htwo⟩ :=
    Lts.reach_of_runWhere (M := Bus.lts ⟨2, 0, 32, .block⟩) (G := Lts.Always) rfl
      (Broker.subscribeRun 0 ++ Broker.publishRun 1 1 [0] ++ Broker.publishRun 2 1 [0] ++
        Broker.giveRun 1 ++ [Action.publishLeave 1 []] ++ Broker.giveRun 2 ++
        [Action.publishLeave 2 []])
      (Q := fun r => r.2.length ≤ 32 ∧ failures r.2 = [] ∧
        (.invoked 1 (.publishWithResult .background ⟨[1], [], [7], [], []⟩) ∈ r.2 ∧
          .returned 1 .published ∈ r.2) ∧
        (.invoked 2 (.publishWithResult .background ⟨[1], [], [7], [], []⟩) ∈ r.2 ∧
          .returned 2 .published ∈ r.2) ∧
        ((given r.2 0).countP fun x => x.event.topic = [7] ∧ idempotencyKey x.event = [1]) = 2)
      (by decide)
  exact ⟨log, w, hr, fun t => (keysUsed_card_le log t).trans hlen, not_failed_of hfail,
    ⟨_, ⟨_, hcall₁⟩, rfl, rfl⟩, hpub₁, ⟨_, ⟨_, hcall₂⟩, rfl, rfl⟩, hpub₂, htwo⟩

end EventBus
