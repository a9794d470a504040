import EventBus.ForStd.Counts
import EventBus.ForStd.List
import EventBus.Spec.BrokerRegistry

/-!
# Channel safety of a subscription

`enqueue` and `close` share a subscription's channels through a handshake: `enqueue`
enters the wait group under `s.mu` only while the subscription is open, `close` marks
it closed under the same lock, waits for the group to empty and only then closes
`s.events`. `SubInv` states the handshake for one subscription; with it no step can
send on a closed channel or close one twice.

## Key results

- `sub_inv`: the handshake invariant holds in every reachable state
- `channel_safety`: no send after close, no double close, no deadlock of `close`
-/

namespace EventBus

variable {n : Nat} {events : Chan Copy} {drain : Bool} {rest : List SubPtr} {config : Config}
  {w : Bus} {p : SubPtr} {sub : Subscription} {a : Action} {pc : Pc}

/-! ## The handshake -/

/-- The subscription in whose wait group a publisher is counted. -/
def Pc.enqueuing : Pc → Option SubPtr
  | .enqueueEntered _ s _ | .enqueueSelect _ s _ | .enqueueExit _ s _ _ => some s
  | _ => none

/-- The subscription whose `once.Do` a closer is in. -/
def Pc.inside : Pc → Option SubPtr
  | .closeMark s _ _ | .closeWait s _ _ | .closeDiscard s _ | .closeEvents s _ => some s
  | _ => none

/-- What a closer inside `Do` knows about the subscription. -/
def Pc.Stage (sub : Subscription) : Pc → Prop
  | .closeMark _ _ _ => sub.closed = false
  | .closeWait _ _ _ => sub.closed = true
  | .closeDiscard _ _ | .closeEvents _ _ => sub.closed = true ∧ sub.wg = 0
  | _ => True

@[simp] theorem Pc.enqueuing_closeNext (rest : List SubPtr) :
    (Pc.closeNext rest).enqueuing = none := by
  cases rest <;> rfl

@[simp] theorem Pc.inside_closeNext (rest : List SubPtr) : (Pc.closeNext rest).inside = none := by
  cases rest <;> rfl

@[simp] theorem Op.enqueuing_start (op : Op) : op.start.enqueuing = none := by
  cases op <;> rfl

@[simp] theorem Op.inside_start (op : Op) : op.start.inside = none := by
  cases op <;> rfl

/-- Call `c` is counted in the wait group of `p`. -/
def Bus.InEnqueue (w : Bus) (c : CallId) (p : SubPtr) : Prop :=
  ∃ pc, w.calls c = some pc ∧ pc.enqueuing = some p

/-- Call `c` is inside `Do` of `p`. -/
def Bus.Inside (w : Bus) (c : CallId) (p : SubPtr) : Prop :=
  ∃ pc, w.calls c = some pc ∧ pc.inside = some p

/-- The handshake between publishers and closers of one subscription. -/
structure Bus.SubInv (w : Bus) (p : SubPtr) (sub : Subscription) : Prop where
  done : sub.done = sub.closed
  wg : Counts (fun c => w.InEnqueue c p) sub.wg
  fresh : sub.once = .fresh → sub.closed = false
  ended : sub.events.closed = true ↔ sub.once = .finished
  finished : sub.once = .finished → sub.closed = true ∧ sub.wg = 0
  stage : ∀ c pc, w.calls c = some pc → pc.inside = some p → sub.once = .running ∧ pc.Stage sub
  unique : ∀ c c', w.Inside c p → w.Inside c' p → c = c'

/-! ## Preservation -/

section Preservation

variable {w₁ : Bus} {c : CallId} {pc' : Pc} {os : List Obs} {sub' : Subscription}

/-- `pc` decides whether `c` is counted for `p`. -/
theorem inEnqueue_iff (hpc : w.calls c = some pc) : w.InEnqueue c p ↔ pc.enqueuing = some p := by
  simp [Bus.InEnqueue, hpc]

/-- Who is counted after one program counter has changed. -/
theorem inEnqueue_setPc (hcalls : w₁.calls = w.calls) (d : CallId) :
    (w₁.setPc c pc').InEnqueue d p ↔
      (d = c ∧ pc'.enqueuing = some p) ∨ (d ≠ c ∧ w.InEnqueue d p) := by
  constructor
  · rintro ⟨pc, hpc, hp⟩
    rcases Bus.setPc_calls_cases hpc with ⟨rfl, rfl⟩ | ⟨hne, hold⟩
    · exact .inl ⟨rfl, hp⟩
    · exact .inr ⟨hne, pc, hcalls ▸ hold, hp⟩
  · rintro (⟨rfl, hp⟩ | ⟨hne, pc, hpc, hp⟩)
    · exact ⟨pc', Bus.setPc_calls_self _ _ _, hp⟩
    · exact ⟨pc, by rw [Bus.setPc_calls_of_ne _ _ hne, hcalls, hpc], hp⟩

/-- The wait group of `p` is unaffected by a move that neither enters nor leaves it. -/
private theorem counts_setPc (hcalls : w₁.calls = w.calls)
    (hwg : Counts (fun d => w.InEnqueue d p) n) (henq : pc'.enqueuing = some p ↔ w.InEnqueue c p) :
    Counts (fun d => (w₁.setPc c pc').InEnqueue d p) n := by
  refine hwg.congr fun d => ?_
  rw [inEnqueue_setPc hcalls, henq]
  by_cases hd : d = c
  · subst hd; simp
  · simp [hd]

/-- The wait group of `p` is unaffected by a call that is in no wait group. -/
private theorem counts_outside (hcalls : w₁.calls = w.calls)
    (hwg : Counts (fun d => w.InEnqueue d p) n) (hpc : w.calls c = some pc)
    (henq : pc.enqueuing = none) (henq' : pc'.enqueuing = none) :
    Counts (fun d => (w₁.setPc c pc').InEnqueue d p) n :=
  counts_setPc hcalls hwg (by rw [inEnqueue_iff hpc, henq, henq'])

/-- The part of the handshake that concerns closers, after a move of `c`: what `c` and
    the other closers know of the new subscription, and that `c` enters `Do` alone. -/
private theorem Bus.SubInv.update (hinv : w.SubInv p sub) (hcalls : w₁.calls = w.calls)
    (hdone : sub'.done = sub'.closed)
    (hwg : Counts (fun d => (w₁.setPc c pc').InEnqueue d p) sub'.wg)
    (hfresh : sub'.once = .fresh → sub'.closed = false)
    (hended : sub'.events.closed = true ↔ sub'.once = .finished)
    (hfinished : sub'.once = .finished → sub'.closed = true ∧ sub'.wg = 0)
    (hmine : pc'.inside = some p →
      sub'.once = .running ∧ pc'.Stage sub' ∧ ∀ d, d ≠ c → ¬w.Inside d p)
    (hothers : ∀ d pc, d ≠ c → w.calls d = some pc → pc.inside = some p →
      sub'.once = .running ∧ pc.Stage sub') : (w₁.setPc c pc').SubInv p sub' where
  done := hdone
  wg := hwg
  fresh := hfresh
  ended := hended
  finished := hfinished
  stage d pc hpc hp := by
    rcases Bus.setPc_calls_cases hpc with ⟨rfl, rfl⟩ | ⟨hne, hold⟩
    · exact ⟨(hmine hp).1, (hmine hp).2.1⟩
    · exact hothers d pc hne (hcalls ▸ hold) hp
  unique := by
    have hcases : ∀ d, (w₁.setPc c pc').Inside d p →
        (d = c ∧ pc'.inside = some p) ∨ (d ≠ c ∧ w.Inside d p) := by
      rintro d ⟨pc, hpc, hp⟩
      rcases Bus.setPc_calls_cases hpc with ⟨rfl, rfl⟩ | ⟨hne, hold⟩
      · exact .inl ⟨rfl, hp⟩
      · exact .inr ⟨hne, pc, hcalls ▸ hold, hp⟩
    intro d d' hd hd'
    rcases hcases d hd with ⟨rfl, hp⟩ | ⟨hne, hin⟩ <;>
      rcases hcases d' hd' with ⟨rfl, hp'⟩ | ⟨hne', hin'⟩
    · rfl
    · exact absurd hin' ((hmine hp).2.2 d' hne')
    · exact absurd hin ((hmine hp').2.2 d hne)
    · exact hinv.unique d d' hin hin'

/-- The handshake survives a move of `c` that leaves the subscription alone. -/
private theorem Bus.SubInv.move (hinv : w.SubInv p sub) (hcalls : w₁.calls = w.calls)
    (hpc : w.calls c = some pc) (henq : pc'.enqueuing = some p ↔ pc.enqueuing = some p)
    (hin : pc'.inside = some p → pc.inside = some p ∧ pc'.Stage sub) :
    (w₁.setPc c pc').SubInv p sub := by
  refine hinv.update hcalls hinv.done
    (counts_setPc hcalls hinv.wg (henq.trans (inEnqueue_iff hpc).symm)) hinv.fresh hinv.ended
    hinv.finished ?_ fun d pc₁ _ => hinv.stage d pc₁
  intro hp
  obtain ⟨hp₀, hstage⟩ := hin hp
  exact ⟨(hinv.stage c pc hpc hp₀).1, hstage, fun d hne hd =>
    hne (hinv.unique d c hd ⟨pc, hpc, hp₀⟩)⟩

/-- Sends and receives do not touch the handshake. -/
private theorem Bus.SubInv.setEvents (hinv : w.SubInv p sub)
    (hcl : events.closed = sub.events.closed) :
    w.SubInv p { sub with events := events } where
  done := hinv.done
  wg := hinv.wg
  fresh := hinv.fresh
  ended := by
    show events.closed = true ↔ sub.once = .finished
    rw [hcl]
    exact hinv.ended
  finished := hinv.finished
  stage d pc hpc hp := by
    obtain ⟨honce, hstage⟩ := hinv.stage d pc hpc hp
    refine ⟨honce, ?_⟩
    cases pc <;> exact hstage
  unique := hinv.unique

/-- A publisher that is counted meets an open channel, since the channel is closed only
    after the count has gone down to zero. -/
theorem Bus.SubInv.open_of_inEnqueue (hinv : w.SubInv p sub) (hc : w.InEnqueue c p) :
    sub.events.closed = false := by
  cases hcl : sub.events.closed with
  | false => rfl
  | true =>
    have hpos := hinv.wg.pos hc
    have hzero := (hinv.finished (hinv.ended.mp hcl)).2
    omega

/-- A closer inside `Do` meets an open channel. -/
theorem Bus.SubInv.open_of_inside (hinv : w.SubInv p sub) (hpc : w.calls c = some pc)
    (hin : pc.inside = some p) : sub.events.closed = false := by
  cases hcl : sub.events.closed with
  | false => rfl
  | true =>
    have honce := (hinv.stage c pc hpc hin).1
    rw [hinv.ended.mp hcl] at honce
    cases honce

/-! ### One lemma for each kind of move -/

/-- Quiet moves stay in, or out of, the wait group. -/
theorem Quiet.enqueuing (h : Quiet w c a pc pc') : pc'.enqueuing = pc.enqueuing := by
  cases h with
  | closeOnceAfter => rw [Pc.enqueuing_closeNext]; rfl
  | @closeWait _ drain => cases drain <;> rfl
  | _ => rfl

/-- Quiet moves inside `Do` know what they need to know. -/
private theorem Quiet.inside (h : Quiet w c a pc pc') (hs : w.subs[p]? = some sub)
    (hstage : pc.inside = some p → pc.Stage sub) (hp : pc'.inside = some p) :
    pc.inside = some p ∧ pc'.Stage sub := by
  cases h with
  | closeOnceAfter => simp at hp
  | @closeWait s drain rest sub' hs' hwg =>
    have hsp : s = p := by cases drain <;> simpa [Pc.inside] using hp
    subst hsp
    rw [hs] at hs'
    cases hs'
    have hcl : sub.closed = true := hstage rfl
    cases drain <;> exact ⟨rfl, hcl, hwg⟩
  | closeDiscardEmpty => exact ⟨hp, hstage hp⟩
  | _ => simp [Pc.inside] at hp

private theorem subInv_quiet (hinv : w.SubInv p sub) (hs : w.subs[p]? = some sub)
    (hpc : w.calls c = some pc) (hq : Quiet w c a pc pc') : (w.setPc c pc').SubInv p sub :=
  hinv.move rfl hpc (by rw [hq.enqueuing]) fun hp =>
    hq.inside hs (fun hp₀ => (hinv.stage c pc hpc hp₀).2) hp

/-- The subscription that `Subscribe` creates starts with the handshake. -/
private theorem subInv_new (hreg : w.RegistryInv) (hcalls : w₁.calls = w.calls) {topic : Bytes}
    (hopen : events.closed = false) (henq : pc'.enqueuing = none) (hin : pc'.inside = none) :
    (w₁.setPc c pc').SubInv w.subs.length (w.subscribeNew topic events) := by
  -- nobody can know a subscription that does not exist yet
  have hnobody : ∀ d pc, (w₁.setPc c pc').calls d = some pc →
      pc.enqueuing ≠ some w.subs.length ∧ pc.inside ≠ some w.subs.length := by
    intro d pc hpc
    rcases Bus.setPc_calls_cases hpc with ⟨-, rfl⟩ | ⟨-, hold⟩
    · simp [henq, hin]
    · rw [hcalls] at hold
      constructor
      · intro he
        refine Nat.lt_irrefl _ (hreg.targets d pc w.subs.length hold ?_)
        cases pc <;> simp_all [Pc.enqueuing, Pc.targets]
      · intro he
        refine Nat.lt_irrefl _ (hreg.closing d pc w.subs.length hold ?_).1
        cases pc <;> simp_all [Pc.inside, Pc.closing]
  refine ⟨rfl, ?_, fun _ => rfl, ?_, ?_, ?_, ?_⟩
  · refine Counts.zero fun d => ?_
    rintro ⟨pc, hpc, hp⟩
    exact (hnobody d pc hpc).1 hp
  · simp [Bus.subscribeNew, newSubscription, hopen]
  · simp [Bus.subscribeNew, newSubscription]
  · intro d pc hpc hp
    exact absurd hp (hnobody d pc hpc).2
  · rintro d d' ⟨pc, hpc, hp⟩ -
    exact absurd hp (hnobody d pc hpc).2

/-- A publisher enters the wait group of an open subscription. -/
private theorem subInv_enter (hinv : w.SubInv p sub) (hcalls : w₁.calls = w.calls)
    (hpc : w.calls c = some pc) (henq : pc.enqueuing = none) (henq' : pc'.enqueuing = some p)
    (hin' : pc'.inside = none) (hopen : sub.closed = false) :
    (w₁.setPc c pc').SubInv p { sub with wg := sub.wg + 1 } := by
  refine hinv.update hcalls hinv.done ?_ hinv.fresh hinv.ended ?_ (by simp [hin']) ?_
  · refine hinv.wg.enter (c := c) (by rw [inEnqueue_iff hpc, henq]; simp) fun d => ?_
    rw [inEnqueue_setPc hcalls, henq']
    by_cases hd : d = c <;> simp [hd]
  · intro h
    have := (hinv.finished h).1
    rw [hopen] at this
    exact nomatch this
  · intro d pc₁ _ hpc₁ hp
    obtain ⟨honce, hstage⟩ := hinv.stage d pc₁ hpc₁ hp
    refine ⟨honce, ?_⟩
    -- a closer past the wait would have seen the subscription closed
    cases pc₁ <;> simp_all [Pc.Stage]

/-- A publisher leaves the wait group. -/
private theorem subInv_leave (hinv : w.SubInv p sub) (hcalls : w₁.calls = w.calls)
    (hpc : w.calls c = some pc) (henq : pc.enqueuing = some p) (henq' : pc'.enqueuing = none)
    (hin' : pc'.inside = none) :
    (w₁.setPc c pc').SubInv p { sub with wg := sub.wg - 1 } := by
  refine hinv.update hcalls hinv.done ?_ hinv.fresh hinv.ended ?_ (by simp [hin']) ?_
  · refine hinv.wg.leave (c := c) ((inEnqueue_iff hpc).mpr henq) fun d => ?_
    rw [inEnqueue_setPc hcalls, henq']
    by_cases hd : d = c <;> simp [hd]
  · intro h
    obtain ⟨hcl, hwg⟩ := hinv.finished h
    exact ⟨hcl, by simp [hwg]⟩
  · intro d pc₁ _ hpc₁ hp
    obtain ⟨honce, hstage⟩ := hinv.stage d pc₁ hpc₁ hp
    refine ⟨honce, ?_⟩
    cases pc₁ <;> simp_all [Pc.Stage]

/-- The first closer enters `Do`, where nobody is. -/
private theorem subInv_closeOnce (hinv : w.SubInv p sub) (hcalls : w₁.calls = w.calls)
    (honce : sub.once = .fresh) (hpc : w.calls c = some (.closeOnce p drain rest)) :
    (w₁.setPc c (.closeMark p drain rest)).SubInv p { sub with once := .running } := by
  have hnobody : ∀ d, ¬w.Inside d p := by
    rintro d ⟨pc₁, hpc₁, hp⟩
    have := (hinv.stage d pc₁ hpc₁ hp).1
    rw [honce] at this
    exact nomatch this
  have hopen : sub.events.closed = false := by
    cases hcl : sub.events.closed with
    | false => rfl
    | true =>
      have := hinv.ended.mp hcl
      rw [honce] at this
      exact nomatch this
  refine hinv.update hcalls hinv.done ?_ (by simp) (by simp [hopen]) (by simp) ?_ ?_
  · exact counts_outside hcalls hinv.wg hpc rfl rfl
  · exact fun _ => ⟨rfl, hinv.fresh honce, fun d _ => hnobody d⟩
  · intro d pc₁ _ hpc₁ hp
    exact absurd ⟨pc₁, hpc₁, hp⟩ (hnobody d)

/-- The closer inside `Do` marks the subscription closed. -/
private theorem subInv_closeMark (hinv : w.SubInv p sub) (hcalls : w₁.calls = w.calls)
    (hpc : w.calls c = some (.closeMark p drain rest)) :
    (w₁.setPc c (.closeWait p drain rest)).SubInv p
      { sub with closed := true, done := true } := by
  obtain ⟨honce, -⟩ := hinv.stage c _ hpc rfl
  refine hinv.update hcalls rfl ?_ ?_ hinv.ended ?_ ?_ ?_
  · exact counts_outside hcalls hinv.wg hpc rfl rfl
  · simp [honce]
  · simp [honce]
  · exact fun _ => ⟨honce, rfl, fun d hne hd => hne (hinv.unique d c hd ⟨_, hpc, rfl⟩)⟩
  · intro d pc₁ hne hpc₁ hp
    exact absurd (hinv.unique d c ⟨pc₁, hpc₁, hp⟩ ⟨_, hpc, rfl⟩) hne

/-- The closer inside `Do` closes the channel and leaves. -/
private theorem subInv_closeEvents (hinv : w.SubInv p sub) (hcalls : w₁.calls = w.calls)
    (hpc : w.calls c = some (.closeEvents p rest)) (hcl : events.closed = true) :
    (w₁.setPc c (.closeNext rest)).SubInv p
      { sub with events := events, once := .finished } := by
  obtain ⟨-, hclosed, hwg⟩ := hinv.stage c _ hpc rfl
  refine hinv.update hcalls hinv.done ?_ (by simp) (by simp [hcl]) (fun _ => ⟨hclosed, hwg⟩)
    (by simp) ?_
  · exact counts_outside hcalls hinv.wg hpc rfl (Pc.enqueuing_closeNext rest)
  · intro d pc₁ hne hpc₁ hp
    exact absurd (hinv.unique d c ⟨pc₁, hpc₁, hp⟩ ⟨_, hpc, rfl⟩) hne

/-- A move of a call that is neither counted nor inside `Do` for `p`, before or after. -/
private theorem Bus.SubInv.outside (hinv : w.SubInv p sub) (hcalls : w₁.calls = w.calls)
    (hpc : w.calls c = some pc) (henq : pc.enqueuing ≠ some p) (henq' : pc'.enqueuing ≠ some p)
    (hin' : pc'.inside ≠ some p) : (w₁.setPc c pc').SubInv p sub :=
  hinv.move hcalls hpc (iff_of_false henq' henq) fun hp => absurd hp hin'

/-- Every move keeps the handshake of every subscription. -/
private theorem Move.subInv (h : Move w c a pc pc' w₁ os) (hpc : w.calls c = some pc)
    (hreg : w.RegistryInv) (hinv : ∀ p sub, w.subs[p]? = some sub → w.SubInv p sub)
    (hs' : w₁.subs[p]? = some sub') : (w₁.setPc c pc').SubInv p sub' := by
  cases h with
  | quiet hq => exact subInv_quiet (hinv p sub' hs') hs' hpc hq
  | publishCached | publishSnapshot | publishLeave | beginShutdown | closeDeregister =>
    exact (hinv p sub' hs').outside rfl hpc (by simp [Pc.enqueuing]) (by simp [Pc.enqueuing])
      (by simp [Pc.inside])
  | closeBroker =>
    exact (hinv p sub' hs').outside rfl hpc (by simp [Pc.enqueuing]) (by simp) (by simp)
  | @enqueueEnter ev s todo sub hs hopen =>
    rcases List.getElem?_set_cases hs' with ⟨rfl, rfl⟩ | ⟨hne, hold⟩
    · exact subInv_enter (hinv p sub hs) rfl hpc rfl rfl rfl hopen
    · exact (hinv p sub' hold).outside rfl hpc (by simp [Pc.enqueuing])
        (by simp [Pc.enqueuing, hne.symm]) (by simp [Pc.inside])
  | @enqueueSend ev s todo sub events hs hsend =>
    have hopen := Chan.send_done hsend
    rcases List.getElem?_set_cases hs' with ⟨rfl, rfl⟩ | ⟨hne, hold⟩
    · exact ((hinv p sub hs).setEvents (hopen.2.2.2.2.trans hopen.1.symm)).move rfl hpc
        Iff.rfl (by simp [Pc.inside])
    · exact (hinv p sub' hold).move rfl hpc Iff.rfl (by simp [Pc.inside])
  | @enqueuePanic ev s todo sub hs hcl =>
    -- a send on a closed channel is what the handshake excludes
    have := (hinv s sub hs).open_of_inEnqueue ⟨_, hpc, rfl⟩
    rw [hcl] at this
    exact nomatch this
  | @enqueueReturn ev s todo sub hs | @enqueueFail ev s todo err sub hs =>
    rcases List.getElem?_set_cases hs' with ⟨rfl, rfl⟩ | ⟨hne, hold⟩
    · exact subInv_leave (hinv p sub hs) rfl hpc rfl rfl rfl
    · exact (hinv p sub' hold).outside rfl hpc (by simp [Pc.enqueuing, hne.symm])
        (by simp [Pc.enqueuing]) (by simp [Pc.inside])
  | @subscribe topic events _ _ _ _ hopen =>
    rcases List.getElem?_concat_cases hs' with hold | ⟨rfl, rfl⟩
    · exact (hinv p sub' hold).outside rfl hpc (by simp [Pc.enqueuing]) (by simp [Pc.enqueuing])
        (by simp [Pc.inside])
    · refine subInv_new hreg ?_ hopen ?_ ?_ <;> rfl
  | @closeOnce s drain rest sub hs honce =>
    rcases List.getElem?_set_cases hs' with ⟨rfl, rfl⟩ | ⟨hne, hold⟩
    · exact subInv_closeOnce (hinv p sub hs) (Bus.setSub_calls _ _ _) honce hpc
    · exact (hinv p sub' hold).outside rfl hpc (by simp [Pc.enqueuing]) (by simp [Pc.enqueuing])
        (by simp [Pc.inside, hne.symm])
  | @closeMark s drain rest sub hs =>
    rcases List.getElem?_set_cases hs' with ⟨rfl, rfl⟩ | ⟨hne, hold⟩
    · exact subInv_closeMark (hinv p sub hs) (Bus.setSub_calls _ _ _) hpc
    · exact (hinv p sub' hold).outside rfl hpc (by simp [Pc.enqueuing]) (by simp [Pc.enqueuing])
        (by simp [Pc.inside, hne.symm])
  | closeMarkPanic hs | closeEventsPanic hs =>
    exact (hinv p sub' hs').outside rfl hpc (by simp [Pc.enqueuing]) (by simp [Pc.enqueuing])
      (by simp [Pc.inside])
  | @closeDiscard s rest sub x events hs hrecv =>
    obtain ⟨-, -, hcl⟩ := Chan.receive_some hrecv
    -- receiving leaves the program counters where they are
    have hkeep : ∀ sub₁, w.SubInv p sub₁ →
        ((w.setSub s { sub with events := events }).setPc c (.closeDiscard s rest)).SubInv p sub₁ :=
      fun sub₁ h₁ => h₁.move rfl hpc Iff.rfl fun hp => ⟨hp, (h₁.stage c _ hpc hp).2⟩
    rcases List.getElem?_set_cases hs' with ⟨rfl, rfl⟩ | ⟨hne, hold⟩
    · exact hkeep _ ((hinv p sub hs).setEvents hcl)
    · exact hkeep _ (hinv p sub' hold)
  | closeDiscardSpin =>
    have h₁ := hinv p sub' hs'
    exact h₁.move rfl hpc Iff.rfl fun hp => ⟨hp, (h₁.stage c _ hpc hp).2⟩
  | @closeEvents s rest sub events hs hclose =>
    obtain ⟨-, -, -, hcl⟩ := Chan.close_done hclose
    rcases List.getElem?_set_cases hs' with ⟨rfl, rfl⟩ | ⟨hne, hold⟩
    · exact subInv_closeEvents (hinv p sub hs) (Bus.setSub_calls _ _ _) hpc hcl
    · exact (hinv p sub' hold).outside rfl hpc (by simp [Pc.enqueuing]) (by simp) (by simp)

/-- The handshake of a subscription depends on the program counters only. -/
private theorem Bus.SubInv.congr (hinv : w.SubInv p sub) (hcalls : w₁.calls = w.calls) :
    w₁.SubInv p sub where
  done := hinv.done
  wg := hinv.wg.congr fun d => by simp only [Bus.InEnqueue, hcalls]
  fresh := hinv.fresh
  ended := hinv.ended
  finished := hinv.finished
  stage d pc hpc := hinv.stage d pc (hcalls ▸ hpc)
  unique d d' hd hd' := by
    simp only [Bus.Inside, hcalls] at hd hd'
    exact hinv.unique d d' hd hd'

/-- Every step keeps the handshake of every subscription. -/
theorem subInv_step {w' : Bus} (h : Effect w a w' os) (hreg : w.RegistryInv)
    (hinv : ∀ p sub, w.subs[p]? = some sub → w.SubInv p sub) (hs' : w'.subs[p]? = some sub') :
    w'.SubInv p sub' := by
  cases h with
  | @invoke c op hnone =>
    have hstart : (w.setPc c op.start).SubInv p sub' := by
      refine (hinv p sub' hs').update rfl (hinv p sub' hs').done ?_ (hinv p sub' hs').fresh
        (hinv p sub' hs').ended (hinv p sub' hs').finished (by simp) ?_
      · exact counts_setPc rfl (hinv p sub' hs').wg (by simp [Bus.InEnqueue, hnone])
      · exact fun d pc _ => (hinv p sub' hs').stage d pc
    exact hstart.congr rfl
  | cancel => exact (hinv p sub' hs').congr rfl
  | call hpc hm => exact hm.subInv hpc hreg hinv hs'
  | @receive s sub x events hs hrecv =>
    obtain ⟨-, -, hcl⟩ := Chan.receive_some hrecv
    rcases List.getElem?_set_cases hs' with ⟨rfl, rfl⟩ | ⟨-, hold⟩
    · exact ((hinv p sub hs).setEvents hcl).congr rfl
    · exact (hinv p sub' hold).congr rfl
  | receiveEnd => exact hinv p sub' hs'

end Preservation

/-- The handshake holds for every subscription in every reachable state. -/
theorem sub_inv {G : Bus → Action → Prop} {log : List Obs} (h : (Bus.lts config).Reach G log w)
    (hs : w.subs[p]? = some sub) : w.SubInv p sub := by
  have hall : ∀ p sub, w.subs[p]? = some sub → w.SubInv p sub := by
    refine h.induct_reach (P := fun _ w => ∀ p sub, w.subs[p]? = some sub → w.SubInv p sub) ?_ ?_
    · rintro _ rfl p sub hp
      simp [new] at hp
    · intro log w a w' os hr hinv _ hstep p sub hp
      exact subInv_step (step_effect hstep) (registry_inv hr) hinv hp
  exact hall p sub hs

/-! ## What the steps report -/

section Reports

variable {w' : Bus} {os : List Obs}

/-- `close(s.done)` happens to an open subscription and closes it. -/
private theorem Effect.closedDone_mem (h : Effect w a w' os) (ho : .closedDone p ∈ os) :
    os = [.closedDone p] ∧ (∃ sub, w.subs[p]? = some sub ∧ sub.done = false) ∧
      ∃ sub', w'.subs[p]? = some sub' ∧ sub'.closed = true := by
  cases h with
  | call _ hm =>
    cases hm with
    | closeMark hs hopen =>
      simp only [List.mem_singleton, Obs.closedDone.injEq] at ho
      subst ho
      exact ⟨rfl, ⟨_, hs, hopen⟩, _, List.getElem?_set_of_eq_some hs, rfl⟩
    | _ => simp at ho
  | _ => simp at ho

/-- `close(s.events)` happens to an open channel and closes it. -/
private theorem Effect.closedEvents_mem (h : Effect w a w' os) (ho : .closedEvents p ∈ os) :
    os.count (.closedEvents p) = 1 ∧
      (∃ sub, w.subs[p]? = some sub ∧ sub.events.closed = false) ∧
      ∃ sub', w'.subs[p]? = some sub' ∧ sub'.events.closed = true := by
  cases h with
  | call _ hm =>
    cases hm with
    | @closeEvents s rest sub events hs hclose =>
      obtain ⟨hopen, -, -, hcl⟩ := Chan.close_done hclose
      obtain rfl : p = s := by simpa using ho
      refine ⟨?_, ⟨_, hs, hopen⟩, _, List.getElem?_set_of_eq_some hs, hcl⟩
      rw [List.count_cons_self, List.count_eq_zero_of_not_mem (by simp)]
    | _ => simp at ho
  | _ => simp at ho

/-- Events enter open channels only, and not in a step that closes one. -/
theorem Effect.put_mem {x : Copy} {route : Route} (h : Effect w a w' os)
    (ho : .put p x route ∈ os) :
    (¬∃ sub, w.subs[p]? = some sub ∧ sub.events.closed = true) ∧ .closedEvents p ∉ os := by
  cases h with
  | call _ hm =>
    cases hm with
    | enqueueSend hs hsend =>
      obtain ⟨hopen, -⟩ := Chan.send_done hsend
      simp only [List.mem_singleton, Obs.put.injEq] at ho
      obtain ⟨rfl, -⟩ := ho
      exact ⟨by simp [hs, hopen], by simp⟩
    | subscribe =>
      obtain rfl : w.subs.length = p := by simp at ho; exact ho.2.1
      exact ⟨by simp, by simp⟩
    | _ => simp at ho
  | _ => simp at ho

/-- The handshake rules out every panic. -/
private theorem Effect.not_panicked (h : Effect w a w' os)
    (hinv : ∀ p sub, w.subs[p]? = some sub → w.SubInv p sub) : .panicked p ∉ os := by
  intro ho
  cases h with
  | call hpc hm =>
    cases hm with
    | enqueuePanic hs hcl =>
      have := (hinv _ _ hs).open_of_inEnqueue ⟨_, hpc, rfl⟩
      rw [hcl] at this
      exact nomatch this
    | closeMarkPanic hs hdone =>
      have : _ = false := ((hinv _ _ hs).stage _ _ hpc rfl).2
      rw [← (hinv _ _ hs).done, hdone] at this
      exact nomatch this
    | closeEventsPanic hs hcl =>
      have := (hinv _ _ hs).open_of_inside hpc rfl
      rw [hcl] at this
      exact nomatch this
    | _ => simp at ho
  | _ => simp at ho

end Reports

/-! ## Safety of the two channels -/

section Safety

variable {G : Bus → Action → Prop} {log : List Obs}

/-- No channel operation panics. -/
theorem not_panicked (h : (Bus.lts config).Reach G log w) (p : SubPtr) : .panicked p ∉ log := by
  refine h.induct_reach (P := fun log _ => .panicked p ∉ log) (by simp) ?_
  intro log w a w' os hr hnot _ hstep
  rw [List.mem_append, not_or]
  exact ⟨hnot, (step_effect hstep).not_panicked fun p sub => sub_inv hr⟩

/-- `s.done` is closed at most once. -/
theorem closedDone_once (h : (Bus.lts config).Reach G log w) (p : SubPtr) :
    log.count (.closedDone p) ≤ 1 := by
  refine (h.once (Q := fun w => ∃ sub, w.subs[p]? = some sub ∧ sub.closed = true) ?_ ?_).1
  · rintro log w a w' os - hstep ⟨sub, hs, hcl⟩
    obtain ⟨sub', hs', hl⟩ := (step_effect hstep).later p sub hs
    exact ⟨sub', hs', hl.closed hcl⟩
  · intro log w a w' os hr hstep ho
    obtain ⟨rfl, ⟨sub, hs, hopen⟩, hafter⟩ := (step_effect hstep).closedDone_mem ho
    refine ⟨?_, hafter, by simp⟩
    rintro ⟨sub₁, hs₁, hcl⟩
    rw [hs] at hs₁
    cases hs₁
    rw [← (sub_inv hr hs).done, hopen] at hcl
    cases hcl

/-- `s.events` is closed at most once, and what has been closed stays closed. -/
theorem closedEvents_once (h : (Bus.lts config).Reach G log w) (p : SubPtr) :
    log.count (.closedEvents p) ≤ 1 ∧
      (.closedEvents p ∈ log → ∃ sub, w.subs[p]? = some sub ∧ sub.events.closed = true) := by
  refine h.once (Q := fun w => ∃ sub, w.subs[p]? = some sub ∧ sub.events.closed = true) ?_ ?_
  · rintro log w a w' os - hstep ⟨sub, hs, hcl⟩
    obtain ⟨sub', hs', hl⟩ := (step_effect hstep).later p sub hs
    exact ⟨sub', hs', hl.ended hcl⟩
  · intro log w a w' os _ hstep ho
    obtain ⟨hone, ⟨sub, hs, hopen⟩, hafter⟩ := (step_effect hstep).closedEvents_mem ho
    exact ⟨by simp [hs, hopen], hafter, hone⟩

/-- Nothing is put in a queue after its channel has been closed. -/
theorem not_put_after_close (h : (Bus.lts config).Reach G log w) (p : SubPtr) (x : Copy)
    (route : Route) : ¬log.Precedes (.closedEvents p) (.put p x route) := by
  refine h.not_precedes (Q := fun w => ∃ sub, w.subs[p]? = some sub ∧ sub.events.closed = true)
    ?_ ?_
  · exact fun log w hr => (closedEvents_once hr p).2
  · exact fun log w a w' os _ hstep ho => (step_effect hstep).put_mem ho

end Safety

/-! ## No deadlock between publishers and a closer -/

/-- The call that makes a step; cancellations and receives are not made by calls. -/
def Action.mover : Action → Option CallId
  | .invoke c _ | .publishEnter c _ _ | .enqueueEnter c | .enqueueCheck c | .enqueueCtx c
  | .enqueueDone c | .enqueueSend c | .enqueueDefault c | .enqueueReturn c | .publishLeave c _
  | .subscribe c | .beginShutdown c | .drainCheck c | .drainTick c | .drainCtx c
  | .closeDeregister c | .closeBroker c _ | .closeOnce c | .closeMark c | .closeWait c
  | .closeDiscard c | .closeEvents c => some c
  | .cancel _ _ | .receive _ => none

/-- The guard of runs in which only call `d` moves. -/
def OnlyBy (d : CallId) (_ : Bus) (a : Action) : Prop := a.mover = some d

/-- The event and the remaining subscriptions of a publisher in `enqueue` on `p`. -/
def Pc.enqueueOn (p : SubPtr) : Pc → Option (Event × List SubPtr)
  | .fanOut ev (s :: todo) | .enqueueEntered ev s todo | .enqueueSelect ev s todo
  | .enqueueExit ev s todo _ => if s = p then some (ev, todo) else none
  | _ => none

/-- The `enqueue` call of publisher `d` has returned, without an error to the fan-out loop
    or with one to the caller of `PublishWithResult`. -/
def Bus.EnqueueReturned (w : Bus) (d : CallId) (ev : Event) (todo : List SubPtr) : Prop :=
  w.calls d = some (.fanOut ev todo) ∨ ∃ err, w.calls d = some (.returned (.failed err))

section Progress

variable {d : CallId} {ev : Event} {todo : List SubPtr}

/-- A step in which call `d` moves on to `pc`. -/
private theorem steps_goto {w₁ : Bus} (ha : a.mover = some d)
    (hstep : w.step a = some (w₁.goto d pc)) :
    (Bus.lts config).Steps (OnlyBy d) w (pc.report d) (w₁.setPc d pc) :=
  .single (G := OnlyBy d) ha hstep

/-- The deferred `s.wg.Done()` is always enabled. -/
private theorem enqueueExit_returns (hs : w.subs[p]? = some sub) {err : Option Err}
    (hpc : w.calls d = some (.enqueueExit ev p todo err)) :
    ∃ log' w', (Bus.lts config).Steps (OnlyBy d) w log' w' ∧
      w'.EnqueueReturned d ev todo := by
  cases err with
  | none =>
    have hstep : w.step (.enqueueReturn d) =
        some ((w.setSub p { sub with wg := sub.wg - 1 }).goto d (.fanOut ev todo)) := by
      simp [Bus.step, Bus.enqueueReturn, hpc, hs]
    exact ⟨_, _, steps_goto rfl hstep, .inl (Bus.setPc_calls_self _ _ _)⟩
  | some err =>
    have hstep : w.step (.enqueueReturn d) =
        some ((w.setSub p { sub with wg := sub.wg - 1 }).goto d (.returned (.failed err))) := by
      simp [Bus.step, Bus.enqueueReturn, hpc, hs]
    exact ⟨_, _, steps_goto rfl hstep, .inr ⟨err, Bus.setPc_calls_self _ _ _⟩⟩

/-- Once `s.done` is closed, a publisher in `enqueue` gets out by its own steps. -/
theorem enqueue_returns (hs : w.subs[p]? = some sub) (hdone : sub.done = true)
    (hclosed : sub.closed = true) (hpc : w.calls d = some pc)
    (hon : pc.enqueueOn p = some (ev, todo)) :
    ∃ log' w', (Bus.lts config).Steps (OnlyBy d) w log' w' ∧
      w'.EnqueueReturned d ev todo := by
  -- from either `select` the publisher leaves by the case `<-s.done`
  have hleave : ∀ a : Action, a.mover = some d →
      w.step a = some (w.goto d (.enqueueExit ev p todo (some .subscription))) →
      ∃ log' w', (Bus.lts config).Steps (OnlyBy d) w log' w' ∧
        w'.EnqueueReturned d ev todo := by
    intro a ha hstep
    have hs' : (w.setPc d (.enqueueExit ev p todo (some .subscription))).subs[p]? = some sub := hs
    obtain ⟨log', w', hsteps, hret⟩ := enqueueExit_returns hs' (Bus.setPc_calls_self _ _ _)
    exact ⟨_, w', (steps_goto ha hstep).trans hsteps, hret⟩
  cases pc with
  | fanOut ev' todo' =>
    cases todo' with
    | nil => simp [Pc.enqueueOn] at hon
    | cons s todo' =>
      simp only [Pc.enqueueOn, Option.ite_none_right_eq_some, Option.some.injEq,
        Prod.mk.injEq] at hon
      obtain ⟨rfl, rfl, rfl⟩ := hon
      have hstep : w.step (.enqueueEnter d) =
          some (w.goto d (.returned (.failed .subscription))) := by
        simp [Bus.step, Bus.enqueueEnter, hpc, hs, hclosed]
      exact ⟨_, _, steps_goto rfl hstep, .inr ⟨_, Bus.setPc_calls_self _ _ _⟩⟩
  | enqueueEntered ev' s todo' =>
    simp only [Pc.enqueueOn, Option.ite_none_right_eq_some, Option.some.injEq,
      Prod.mk.injEq] at hon
    obtain ⟨rfl, rfl, rfl⟩ := hon
    exact hleave (.enqueueCheck d) rfl (by simp [Bus.step, Bus.enqueueCheck, hpc, hs, hdone])
  | enqueueSelect ev' s todo' =>
    simp only [Pc.enqueueOn, Option.ite_none_right_eq_some, Option.some.injEq,
      Prod.mk.injEq] at hon
    obtain ⟨rfl, rfl, rfl⟩ := hon
    exact hleave (.enqueueDone d) rfl (by simp [Bus.step, Bus.enqueueDone, hpc, hs, hdone])
  | enqueueExit ev' s todo' err =>
    simp only [Pc.enqueueOn, Option.ite_none_right_eq_some, Option.some.injEq,
      Prod.mk.injEq] at hon
    obtain ⟨rfl, rfl, rfl⟩ := hon
    exact enqueueExit_returns hs hpc
  | _ => simp [Pc.enqueueOn] at hon

end Progress

/-- Channel safety of a subscription, in every run of the broker: no operation on its
    channels panics, nothing is sent after `s.events` has been closed, both channels are
    closed at most once, and while some call waits on `s.wg` every publisher in `enqueue`
    on the subscription can return by its own steps. -/
theorem channel_safety {config : Config} {log : List Obs} {w : Bus}
    (h : (Bus.lts config).Reach Lts.Always log w) (p : SubPtr) :
    .panicked p ∉ log ∧
    (∀ x route, ¬log.Precedes (.closedEvents p) (.put p x route)) ∧
    log.count (.closedEvents p) ≤ 1 ∧ log.count (.closedDone p) ≤ 1 ∧
    ∀ c drain rest, w.calls c = some (.closeWait p drain rest) →
      ∀ d pc ev todo, w.calls d = some pc → pc.enqueueOn p = some (ev, todo) →
        ∃ log' w', (Bus.lts config).Steps (OnlyBy d) w log' w' ∧
          w'.EnqueueReturned d ev todo := by
  refine ⟨not_panicked h p, not_put_after_close h p, (closedEvents_once h p).1,
    closedDone_once h p, ?_⟩
  intro c drain rest hc d pc ev todo hpc hon
  have halloc : p < w.subs.length :=
    ((registry_inv h).closing c _ p hc (by simp [Pc.closing])).1
  have hs : w.subs[p]? = some (w.subs.get ⟨p, halloc⟩) := List.getElem?_eq_getElem halloc
  have hclosed : (w.subs.get ⟨p, halloc⟩).closed = true := ((sub_inv h hs).stage c _ hc rfl).2
  exact enqueue_returns hs ((sub_inv h hs).done.trans hclosed) hclosed hpc hon

/-- A publisher stuck at a full queue while `Close` waits for it: the theorem applies, and
    the publisher gets out. -/
theorem channel_safety_full_queue :
    ∃ log w, (Bus.lts ⟨1, 0, 0, .block⟩).Reach Lts.Always log w ∧
      w.calls 3 = some (.closeWait 0 true []) ∧
      w.calls 2 = some (.enqueueSelect ⟨[2], [], [7], [], []⟩ 0 []) ∧
      w.step (.enqueueSend 2) = none ∧
      ∃ log' w', (Bus.lts ⟨1, 0, 0, .block⟩).Steps (OnlyBy 2) w log' w' ∧
        w'.EnqueueReturned 2 ⟨[2], [], [7], [], []⟩ [] := by
  obtain ⟨log, w, hr, hclose, hpub, hfull⟩ :=
    Lts.reach_of_runWhere (M := Bus.lts ⟨1, 0, 0, .block⟩) (G := Lts.Always) rfl
      (Broker.subscribeRun 0 ++ Broker.publishRun 1 1 [0] ++ Broker.giveRun 1 ++
        [Action.publishLeave 1 []] ++ Broker.publishRun 2 2 [0] ++
        [Action.enqueueEnter 2, .enqueueCheck 2, .invoke 3 (.closeSubscription 0),
          .closeDeregister 3, .closeOnce 3, .closeMark 3])
      (Q := fun r => r.1.calls 3 = some (.closeWait 0 true []) ∧
        r.1.calls 2 = some (.enqueueSelect ⟨[2], [], [7], [], []⟩ 0 []) ∧
        (r.1.step (.enqueueSend 2)).isNone)
      (by decide)
  refine ⟨log, w, hr, hclose, hpub, Option.isNone_iff_eq_none.mp hfull, ?_⟩
  exact (channel_safety hr 0).2.2.2.2 3 true [] hclose 2 _ _ _ hpub rfl

end EventBus
