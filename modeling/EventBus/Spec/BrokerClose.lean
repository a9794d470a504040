import EventBus.Spec.BrokerEnqueue

/-!
# Closing a subscription

`Subscription.Close` and `Drain` close the queue of a subscription only after every call of
`enqueue` on it has returned, and leave what is in it to the consumer. As long as the broker
itself is not closed, the consumer is therefore given every event that entered the queue
before it sees the end of the channel.

## Key results

- `given_split`: a queue is first given the events that `Subscribe` replays to it
- `ended_empty`: a consumer that has seen the end of the channel has emptied the queue
- `close_loses_nothing`: what a consumer receives until it sees the end of the channel
-/

namespace EventBus

variable {config : Config} {log : List Obs} {G : Bus → Action → Prop} {w : Bus} {p : SubPtr}

/-- A call of `Broker.Close`. -/
def Action.closesBroker : Action → Bool
  | .invoke _ .closeBroker => true
  | _ => false

/-- `Broker.Close` is not called. -/
def NoBrokerClose (_ : Bus) (a : Action) : Prop := a.closesBroker = false

instance (w : Bus) (a : Action) : Decidable (NoBrokerClose w a) :=
  inferInstanceAs (Decidable (_ = _))

/-! ## Nothing is discarded -/

/-- Program counters that only a call of `Broker.Close` gets to. -/
def Pc.discarding : Pc → Bool
  | .closeBroker | .closeDiscard .. => true
  | .closeOnce _ keep rest | .closeMark _ keep rest | .closeWait _ keep rest =>
    !keep || !rest.isEmpty
  | .closeEvents _ rest => !rest.isEmpty
  | _ => false

section Steps

variable {w' w₁ : Bus} {c : CallId} {a : Action} {pc pc' : Pc} {os : List Obs}

theorem Move.discarding (h : Move w c a pc pc' w₁ os) (hpc : pc.discarding = false) :
    pc'.discarding = false := by
  cases h with
  | quiet hq =>
    cases hq with
    | @closeOnceAfter s drain rest =>
      obtain ⟨-, hrest⟩ : drain = true ∧ rest = [] := by simpa [Pc.discarding] using hpc
      rw [hrest]
      rfl
    | @closeWait s drain rest =>
      obtain ⟨rfl, rfl⟩ : drain = true ∧ rest = [] := by simpa [Pc.discarding] using hpc
      rfl
    | closeDiscardEmpty => cases hpc
    | _ => rfl
  | closeOnce | closeMark => exact hpc
  | @closeEvents s rest =>
    obtain rfl : rest = [] := by simpa [Pc.discarding] using hpc
    rfl
  | closeBroker | closeDiscard | closeDiscardSpin => cases hpc
  | _ => rfl

/-- In a run without `Broker.Close` no call discards events. -/
theorem not_discarding (h : (Bus.lts config).Reach NoBrokerClose log w)
    (hpc : w.calls c = some pc) :
    pc.discarding = false := by
  refine h.invariant (P := fun _ w => ∀ c pc, w.calls c = some pc → pc.discarding = false)
    ?_ ?_ c pc hpc
  · rintro _ rfl c pc hpc
    cases hpc
  intro log w a w' os hinv hg hstep c pc hpc
  rcases (step_effect hstep).cases_call c with
    ⟨hsame, -⟩ | ⟨op, -, hpc', hos⟩ | ⟨pc₀, pc', w₁, hpc₀, hm, rfl⟩
  · exact hinv c pc (hsame ▸ hpc)
  · rw [hpc', Option.some.injEq] at hpc
    subst hpc
    cases op with
    | closeBroker =>
      -- the action would have to be the call of `Broker.Close`
      obtain rfl := (step_effect hstep).invoked_mem (by rw [hos]; exact List.mem_singleton_self _)
      cases hg
    | _ => rfl
  · rw [Bus.setPc_calls_self, Option.some.injEq] at hpc
    subst hpc
    exact hm.discarding (hinv c pc₀ hpc₀)

/-- In a run without `Broker.Close` what leaves a queue is received. -/
theorem taken_eq_received (h : (Bus.lts config).Reach NoBrokerClose log w) (p : SubPtr) :
    taken log p = receivedFrom log p := by
  have hnot : ∀ s x, .discarded s x ∉ log := by
    refine h.induct_reach (P := fun log _ => ∀ s x, .discarded s x ∉ log) (by simp) ?_
    intro log w a w' os hr hinv _ hstep s x ho
    refine (List.mem_append.mp ho).elim (hinv s x) fun hnew => ?_
    cases step_effect hstep with
    | call hpc hm =>
      cases hm with
      | closeDiscard => exact nomatch not_discarding hr hpc
      | _ => simp at hnew
    | _ => simp at hnew
  refine List.filterMap_congr fun o ho => ?_
  cases o with
  | discarded s x => exact absurd ho (hnot s x)
  | _ => rfl

end Steps

/-! ## Replay comes first -/

/-- The events that entered the queue of `p` by one route, oldest first. -/
def givenVia (route : Route) (log : List Obs) (p : SubPtr) : List Copy :=
  log.filterMap fun
    | .put s x r => if s = p ∧ r = route then some x else none
    | _ => none

section Routes

variable {w' : Bus} {a : Action} {os : List Obs} {x : Copy} {route : Route}

@[simp] theorem givenVia_append (log os : List Obs) :
    givenVia route (log ++ os) p = givenVia route log p ++ givenVia route os p :=
  List.filterMap_append

theorem mem_givenVia : x ∈ givenVia route log p ↔ .put p x route ∈ log := by
  simp only [givenVia, List.mem_filterMap]
  constructor
  · rintro ⟨o, ho, hx⟩
    split at hx
    · simp only [Option.ite_none_right_eq_some, Option.some.injEq] at hx
      obtain ⟨⟨rfl, rfl⟩, rfl⟩ := hx
      exact ho
    · cases hx
  · intro ho
    exact ⟨_, ho, by simp⟩

/-- A queue that is given nothing by the other route. -/
theorem given_eq_givenVia (h : ∀ x r, .put p x r ∈ os → r = route) :
    given os p = givenVia route os p := by
  refine List.filterMap_congr fun o ho => ?_
  cases o with
  | put s x r =>
    by_cases hs : s = p
    · subst hs
      simp [h x r ho]
    · simp [hs]
  | _ => rfl

theorem givenVia_eq_nil (h : ∀ x, .put p x route ∉ os) : givenVia route os p = [] := by
  rw [List.eq_nil_iff_forall_not_mem]
  intro x hx
  exact h x (mem_givenVia.mp hx)

/-- A step gives a queue events by one route, and replays to a new subscription only. -/
theorem Effect.put_route (h : Effect w a w' os) (p : SubPtr) :
    (∀ x r, .put p x r ∈ os → r = .direct) ∨
      (p = w.subs.length ∧ ∀ x r, .put p x r ∈ os → r = .replay) := by
  cases h with
  | call _ hm =>
    cases hm with
    | subscribe =>
      by_cases hp : p = w.subs.length
      · right
        refine ⟨hp, fun x r ho => ?_⟩
        simp only [List.mem_append, List.mem_map, List.mem_singleton, reduceCtorEq, or_false] at ho
        obtain ⟨y, -, heq⟩ := ho
        exact (Obs.put.inj heq).2.2.symm
      · left
        intro x r ho
        simp only [List.mem_append, List.mem_map, List.mem_singleton, reduceCtorEq, or_false] at ho
        obtain ⟨y, -, heq⟩ := ho
        exact absurd (Obs.put.inj heq).1.symm hp
    | enqueueSend =>
      left
      intro x r ho
      exact (Obs.put.inj (List.mem_singleton.mp ho)).2.2
    | _ =>
      left
      simp
  | _ =>
    left
    simp

/-- A queue is first given the events that `Subscribe` replays, then those that are sent. -/
theorem given_split (h : (Bus.lts config).Reach G log w) (p : SubPtr) :
    given log p = givenVia .replay log p ++ givenVia .direct log p := by
  refine h.induct_reach (P := fun log _ =>
    given log p = givenVia .replay log p ++ givenVia .direct log p) (fun _ _ => rfl) ?_
  intro log w a w' os hr hinv _ hstep
  rw [given_append, givenVia_append, givenVia_append]
  rcases (step_effect hstep).put_route p with hdirect | ⟨rfl, hreplay⟩
  · have hnone : givenVia .replay os p = [] :=
      givenVia_eq_nil fun x ho => nomatch hdirect x _ ho
    rw [hinv, given_eq_givenVia hdirect, hnone, List.append_nil, List.append_assoc]
  · -- the subscription is new, and nothing has been put in its queue before
    have hfresh : ∀ x r, .put w.subs.length x r ∉ log := by
      intro x r ho
      obtain ⟨-, sub, hs, -⟩ := (log_inv hr).put _ x r ho
      simp at hs
    have hnone : givenVia .direct os w.subs.length = [] :=
      givenVia_eq_nil fun x ho => nomatch hreplay x _ ho
    rw [given_eq_nil hfresh, given_eq_givenVia hreplay, hnone,
      givenVia_eq_nil fun x => hfresh x .replay, givenVia_eq_nil fun x => hfresh x .direct]
    simp

end Routes

/-! ## The end of the channel -/

/-- A consumer that has seen the end of the channel has emptied the queue, for good. -/
theorem ended_empty (h : (Bus.lts config).Reach G log w) (ho : .ended p ∈ log) :
    w.queue p = [] ∧ ∃ sub, w.subs[p]? = some sub ∧ sub.events.closed = true := by
  refine h.invariant (P := fun log w => .ended p ∈ log → w.queue p = [] ∧
    ∃ sub, w.subs[p]? = some sub ∧ sub.events.closed = true) (by simp) ?_ ho
  intro log w a w' os hinv _ hstep ho
  have heff := step_effect hstep
  rcases List.mem_append.mp ho with hold | hnew
  · obtain ⟨hempty, sub, hs, hclosed⟩ := hinv hold
    obtain ⟨sub', hs', hlater⟩ := heff.later p sub hs
    have hgiven : given os p = [] := by
      refine given_eq_nil fun x r ho => ?_
      exact (heff.put_mem ho).1 ⟨sub, hs, hclosed⟩
    have hqueue := heff.queue p
    rw [hempty, hgiven, List.append_nil, eq_comm, List.append_eq_nil_iff] at hqueue
    exact ⟨hqueue.2, sub', hs', hlater.ended hclosed⟩
  · cases heff with
    | @receiveEnd s sub hs hbuf hclosed =>
      obtain rfl := Obs.ended.inj (List.mem_singleton.mp hnew)
      exact ⟨by rw [Bus.queue_of hs, hbuf], sub, hs, hclosed⟩
    | call _ hm => cases hm <;> simp at hnew
    | _ => simp at hnew

/-- The calls that `enqueue` on `p` returned `nil` to, in this order. -/
def accepted (log : List Enqueued) (p : SubPtr) : List CallId :=
  log.filterMap fun e => if e.sub = p ∧ e.err = none then some e.call else none

theorem mem_accepted {log : List Enqueued} {c : CallId} :
    c ∈ accepted log p ↔ ⟨c, p, none⟩ ∈ log := by
  simp only [accepted, List.mem_filterMap, Option.ite_none_right_eq_some, Option.some.injEq]
  constructor
  · rintro ⟨⟨d, s, err⟩, he, ⟨rfl, rfl⟩, rfl⟩
    exact he
  · intro he
    exact ⟨_, he, ⟨rfl, rfl⟩, rfl⟩

theorem accepted_count (log : List Enqueued) (p : SubPtr) (c : CallId) :
    (accepted log p).count c = (results log c).count (p, none) := by
  induction log with
  | nil => rfl
  | cons e log ih =>
    obtain ⟨d, s, err⟩ := e
    simp only [accepted, results, List.filterMap_cons] at ih ⊢
    by_cases hd : d = c <;> by_cases hs : s = p <;> cases err <;> simp_all

/-- Close and Drain lose nothing. In every run without `Broker.Close`, once a consumer of `p`
    has seen the end of the channel it has received the events that `Subscribe` replayed and
    then those that were sent, in the order in which they entered the queue. Those that were
    sent are the events of the calls to which `enqueue` returned `nil`, one for each, and a
    call to which it returned an error has contributed nothing. -/
theorem close_loses_nothing {config : Config} {log : List (Obs ⊕ Enqueued)} {w : Bus}
    (h : (Bus.calling config).Reach NoBrokerClose log w) {p : SubPtr}
    (hend : .ended p ∈ Lts.inner log) :
    receivedFrom (Lts.inner log) p =
      givenVia .replay (Lts.inner log) p ++ givenVia .direct (Lts.inner log) p ∧
    ((givenVia .direct (Lts.inner log) p).map Copy.call).Perm (accepted (Lts.extra log) p) ∧
    ((givenVia .direct (Lts.inner log) p).map Copy.call).Nodup ∧
    ∀ c err, ⟨c, p, some err⟩ ∈ Lts.extra log →
      ∀ x ∈ receivedFrom (Lts.inner log) p, x.call ≠ c := by
  have hr := h.of_observe
  obtain ⟨hempty, sub, hs, hclosed⟩ := ended_empty hr hend
  have hreceived : given (Lts.inner log) p = receivedFrom (Lts.inner log) p := by
    rw [given_eq hr p, hempty, List.append_nil, taken_eq_received hr]
  have hsplit := given_split hr p
  -- the queue is closed, so nobody is in `enqueue` any more
  have hidle : ∀ c, ¬w.InEnqueue c p := by
    intro c hc
    have hopen := (sub_inv hr hs).open_of_inEnqueue hc
    rw [hclosed] at hopen
    cases hopen
  have hnodup : ((givenVia .direct (Lts.inner log) p).map Copy.call).Nodup := by
    rw [List.nodup_iff_count_le_one]
    intro c
    have hone := given_le_one hr c p
    rw [hsplit, List.countP_append] at hone
    rw [List.count, List.countP_map]
    have hcongr : (givenVia .direct (Lts.inner log) p).countP ((· == c) ∘ Copy.call) =
        (givenVia .direct (Lts.inner log) p).countP fun x => x.call = c :=
      List.countP_congr fun x _ => by simp
    omega
  have hmem : ∀ c, c ∈ (givenVia .direct (Lts.inner log) p).map Copy.call ↔
      c ∈ accepted (Lts.extra log) p := by
    intro c
    rw [mem_accepted, enqueued_nil_iff h (hidle c), mem_directs, List.mem_map]
    simp only [mem_givenVia]
    exact ⟨fun ⟨x, ho, hx⟩ => ⟨x, hx, ho⟩, fun ⟨x, hx, ho⟩ => ⟨x, ho, hx⟩⟩
  have haccepted : (accepted (Lts.extra log) p).Nodup := by
    rw [List.nodup_iff_count_le_one]
    intro c
    rw [accepted_count]
    exact results_count h
  refine ⟨hreceived ▸ hsplit, ?_, hnodup, ?_⟩
  · exact (List.perm_ext_iff_of_nodup hnodup haccepted).mpr hmem
  · intro c err he x hx hcall
    obtain ⟨hdir, err', hpc⟩ := enqueued_error h he
    have hacc := account_inv hr c
    rw [Accounted, hpc] at hacc
    -- a call that failed has cached nothing either
    have hcach : cachings (Lts.inner log) c = [] := by
      rcases hacc with ⟨-, -, hcach⟩ | ⟨sent, todo, -, -, -, hcach⟩
      · exact hcach
      · exact hcach
    have hrep := replays_le hr c
    rw [hcach, List.length_nil, Nat.le_zero, List.length_eq_zero_iff] at hrep
    have hcount := given_countP (Lts.inner log) c p
    rw [hrep, List.count_nil, List.count_eq_zero_of_not_mem hdir, List.countP_eq_zero,
      hreceived] at hcount
    exact hcount x hx (decide_eq_true hcall)

/-- One event is replayed, one is sent, and `Close` comes in between a third call and its queue:
    the consumer receives the first two. -/
theorem close_loses_nothing_race :
    ∃ log w, (Bus.calling ⟨2, 1, 0, .block⟩).Reach NoBrokerClose log w ∧
      receivedFrom (Lts.inner log) 0 =
        [⟨0, ⟨[1], [], [7], [], []⟩⟩, ⟨2, ⟨[2], [], [7], [], []⟩⟩] ∧
      ⟨3, 0, some .subscription⟩ ∈ Lts.extra log ∧
      [2].Perm (accepted (Lts.extra log) 0) := by
  obtain ⟨log, w, hr, hend, hreceived, hdirect, herr⟩ :=
    Lts.reach_of_runWhere (M := Bus.calling ⟨2, 1, 0, .block⟩) (G := NoBrokerClose) rfl
      (Broker.publishRun 0 1 [] ++ Broker.subscribeRun 1 ++ Broker.publishRun 2 2 [0] ++
        Broker.publishRun 3 3 [0] ++
        [Action.enqueueEnter 2, .enqueueEnter 3, .invoke 4 (.closeSubscription 0),
          .closeDeregister 4, .closeOnce 4, .enqueueCheck 2, .closeMark 4, .enqueueCheck 3,
          .enqueueSend 2, .enqueueReturn 2, .enqueueReturn 3, .closeWait 4, .receive 0,
          .closeEvents 4, .receive 0, .receive 0])
      (Q := fun r => .ended 0 ∈ Lts.inner r.2 ∧
        receivedFrom (Lts.inner r.2) 0 =
          [⟨0, ⟨[1], [], [7], [], []⟩⟩, ⟨2, ⟨[2], [], [7], [], []⟩⟩] ∧
        (givenVia .direct (Lts.inner r.2) 0).map Copy.call = [2] ∧
        ⟨3, 0, some .subscription⟩ ∈ Lts.extra r.2)
      (by decide)
  have hperm := (close_loses_nothing hr hend).2.1
  rw [hdirect] at hperm
  exact ⟨log, w, hr, hreceived, herr, hperm⟩

end EventBus
