import EventBus.Spec.BrokerChannel
import EventBus.Spec.BrokerFanOut

/-!
# What enqueue returns

A run of the bus reports the events that enter a queue, not what `enqueue` returns to the
fan-out loop. `Bus.enqueued` reads that off a step, and `Bus.calling` is the bus with these
results among its observations. The results of a call follow the queues it has sent to: a
call that has sent its event to a queue is told so, and an error is the last result a call
gets and comes from a queue it has not sent to.

## Key results

- `results_inv`: the results of the calls of `enqueue`, from where their caller stands
- `enqueued_nil_iff`: a queue that nobody is sending to holds what was put in it without error
- `enqueued_error`: an error comes from a queue that the call has put nothing in
-/

namespace EventBus

variable {log : List Enqueued} {c : CallId} {p : SubPtr} {sent : List SubPtr}
  {res : List (SubPtr × Option Err)} {config : Config} {G : Bus → Action → Prop} {w : Bus}

/-- The result of a call of `enqueue`: who called it, on which subscription, and the error. -/
structure Enqueued where
  call : CallId
  sub : SubPtr
  err : Option Err
deriving DecidableEq, Repr

/-- The call of `enqueue` that returns in a step, with what it returns. -/
def Bus.enqueued (w : Bus) : Action → List Enqueued
  | .enqueueEnter c =>
    match w.calls c with
    | some (.fanOut _ (s :: _)) =>
      if w.subs[s]?.map (·.closed) = some true then [⟨c, s, some .subscription⟩] else []
    | _ => []
  | .enqueueReturn c =>
    match w.calls c with
    | some (.enqueueExit _ s _ err) => [⟨c, s, err⟩]
    | _ => []
  | _ => []

/-- The bus, with the results of `enqueue` to be seen. -/
def Bus.calling (config : Config) : Lts Bus Action (Obs ⊕ Enqueued) :=
  (Bus.lts config).observe Bus.enqueued

/-- What the calls of `enqueue` by `c` have returned, oldest first. -/
def results (log : List Enqueued) (c : CallId) : List (SubPtr × Option Err) :=
  log.filterMap fun e => if e.call = c then some (e.sub, e.err) else none

@[simp] theorem results_append (log log' : List Enqueued) (c : CallId) :
    results (log ++ log') c = results log c ++ results log' c := List.filterMap_append

theorem mem_results {err : Option Err} :
    (p, err) ∈ results log c ↔ ⟨c, p, err⟩ ∈ log := by
  simp only [results, List.mem_filterMap, Option.ite_none_right_eq_some, Option.some.injEq,
    Prod.mk.injEq]
  constructor
  · rintro ⟨e, he, rfl, rfl, rfl⟩
    exact he
  · intro he
    exact ⟨_, he, rfl, rfl, rfl⟩

theorem results_eq_nil (h : ∀ e ∈ log, e.call ≠ c) :
    results log c = [] :=
  List.filterMap_eq_nil_iff.mpr fun e he => if_neg (h e he)

/-! ## Steps -/

section Steps

variable {w' w₁ : Bus} {a : Action} {pc pc' : Pc} {os : List Obs} {e : Enqueued}

/-- Who gets a result stands at the head of the loop, with a closed subscription before it, or
    at the end of `enqueue`. -/
theorem mem_enqueued (he : e ∈ w.enqueued a) :
    (w.enqueued a = [e] ∧ a = .enqueueEnter e.call ∧ e.err = some .subscription ∧
      ∃ ev todo sub, w.calls e.call = some (.fanOut ev (e.sub :: todo)) ∧
        w.subs[e.sub]? = some sub ∧ sub.closed = true) ∨
    (w.enqueued a = [e] ∧ a = .enqueueReturn e.call ∧
      ∃ ev todo, w.calls e.call = some (.enqueueExit ev e.sub todo e.err)) := by
  unfold Bus.enqueued at he ⊢
  split at he
  · split at he
    · rename_i hpc
      split at he
      · rename_i hclosed
        obtain rfl := List.mem_singleton.mp he
        obtain ⟨sub, hs, hcl⟩ := Option.map_eq_some_iff.mp hclosed
        left
        exact ⟨by simp [hclosed], rfl, rfl, _, _, sub, hpc, hs, hcl⟩
      · cases he
    · cases he
  · split at he
    · rename_i hpc
      obtain rfl := List.mem_singleton.mp he
      right
      exact ⟨rfl, rfl, _, _, hpc⟩
    · cases he
  · cases he

/-- Who gets a result moves. -/
theorem enqueued_moves (h : w.step a = some (w', os)) (he : e ∈ w.enqueued a) :
    w'.calls e.call ≠ w.calls e.call := by
  rcases mem_enqueued he with ⟨-, rfl, -, ev, todo, sub, hpc, hs, hcl⟩ | ⟨-, rfl, ev, todo, hpc⟩
  · replace h : w.enqueueEnter e.call = some (w', os) := h
    simp only [Bus.enqueueEnter, hpc, hs, hcl, if_true, Bus.goto, Option.some.injEq,
      Prod.mk.injEq] at h
    obtain ⟨rfl, -⟩ := h
    rw [Bus.setPc_calls_self, hpc]
    simp
  · replace h : w.enqueueReturn e.call = some (w', os) := h
    simp only [Bus.enqueueReturn, hpc] at h
    split at h
    · split at h
      · simp only [Bus.goto, Option.some.injEq, Prod.mk.injEq] at h
        obtain ⟨rfl, -⟩ := h
        rw [Bus.setPc_calls_self, hpc]
        simp
      · simp only [Bus.goto, Option.some.injEq, Prod.mk.injEq] at h
        obtain ⟨rfl, -⟩ := h
        rw [Bus.setPc_calls_self, hpc]
        simp
    · cases h

/-- The results of a call, from the queues it has sent to and where it stands. -/
def Pc.Results (sent : List SubPtr) (res : List (SubPtr × Option Err)) : Pc → Prop
  | .enqueueExit _ s _ none => ∃ before, sent = before ++ [s] ∧ res = before.map (·, none)
  | .returned (.failed _) => res = sent.map (·, none) ∨
      ∃ s err, s ∉ sent ∧ res = sent.map (·, none) ++ [(s, some err)]
  | _ => res = sent.map (·, none)

/-- A call that may get a result. -/
def Pc.returning : Pc → Bool
  | .fanOut _ (_ :: _) | .enqueueExit .. => true
  | _ => false

theorem results_enqueued_nil (hpc : w.calls c = some pc) (hret : pc.returning = false) :
    results (w.enqueued a) c = [] := by
  refine results_eq_nil ?_
  rintro e he rfl
  rcases mem_enqueued he with ⟨-, -, -, ev, todo, sub, hpc', -⟩ | ⟨-, -, ev, todo, hpc'⟩ <;>
  · rw [hpc, Option.some.injEq] at hpc'
    rw [hpc'] at hret
    cases hret

theorem directs_eq_nil (h : ∀ s x, .put s x .direct ∉ os) : directs os c = [] := by
  refine List.filterMap_eq_nil_iff.mpr fun o ho => ?_
  split
  · exact absurd ho (h _ _)
  · rfl

/-- Only the send of `enqueue` puts the event of a call in a queue. -/
theorem Move.directs (h : Move w c a pc pc' w₁ os) :
    directs os c = [] ∨ ∃ ev s todo, pc = .enqueueSelect ev s todo ∧
      pc' = .enqueueExit ev s todo none ∧ directs os c = [s] := by
  cases h with
  | @enqueueSend ev s todo =>
    right
    exact ⟨ev, s, todo, rfl, rfl, by simp [EventBus.directs]⟩
  | _ =>
    left
    apply directs_eq_nil
    simp

/-- A quiet move, seen from the results of its call. -/
private theorem Quiet.results (hq : Quiet w c a pc pc') (hpc : w.calls c = some pc)
    (hres : pc.Results sent res) (hfresh : ∀ ev s todo, pc = .fanOut ev (s :: todo) → s ∉ sent) :
    pc'.Results sent (res ++ results (w.enqueued a) c) := by
  cases hq with
  | @enqueueClosed ev s todo =>
    by_cases he : ∃ e ∈ w.enqueued (.enqueueEnter c), e.call = c
    · obtain ⟨e, he, rfl⟩ := he
      rcases mem_enqueued he with ⟨hone, -, herr, ev', todo', _, hpc', -⟩ | ⟨-, -, ev', todo', hpc'⟩
      · rw [hpc, Option.some.injEq, Pc.fanOut.injEq, List.cons.injEq] at hpc'
        right
        refine ⟨s, .subscription, hfresh ev s todo rfl, ?_⟩
        replace hres : res = sent.map (·, none) := hres
        simp [hone, EventBus.results, hres, herr, hpc'.2.1]
      · rw [hpc] at hpc'
        cases hpc'
    · rw [results_eq_nil fun e hmem hcall => he ⟨e, hmem, hcall⟩, List.append_nil]
      exact .inl hres
  | publishClosed | publishDraining | subscribeRefused | drainCtx =>
    rw [results_enqueued_nil hpc rfl, List.append_nil]
    exact .inl hres
  | @closeOnceAfter _ _ rest =>
    rw [results_enqueued_nil hpc rfl, List.append_nil]
    cases rest <;> exact hres
  | @closeWait _ drain =>
    rw [results_enqueued_nil hpc rfl, List.append_nil]
    cases drain <;> exact hres
  | _ =>
    rw [results_enqueued_nil hpc rfl, List.append_nil]
    exact hres

/-- A move that sends nothing, seen from the results of its call. -/
private theorem Move.results (h : Move w c a pc pc' w₁ os) (hpc : w.calls c = some pc)
    (hres : pc.Results sent res)
    (hfresh : ∀ p, p ∈ pc.targets → (∀ ev s todo, pc ≠ .enqueueExit ev s todo none) → p ∉ sent) :
    pc'.Results (sent ++ EventBus.directs os c) (res ++ EventBus.results (w.enqueued a) c) := by
  rcases h.directs with hdir | ⟨ev, s, todo, rfl, rfl, hdir⟩
  · rw [hdir, List.append_nil]
    cases h with
    | quiet hq =>
      refine hq.results hpc hres ?_
      rintro ev s todo rfl
      exact hfresh s (List.mem_cons_self ..) nofun
    | @enqueueReturn ev s todo =>
      obtain ⟨before, rfl, rfl⟩ := hres
      simp [Bus.enqueued, hpc, EventBus.results, Pc.Results]
    | @enqueueFail ev s todo err =>
      right
      refine ⟨s, err, hfresh s (List.mem_cons_self ..) nofun, ?_⟩
      replace hres : res = sent.map (·, none) := hres
      simp [Bus.enqueued, hpc, EventBus.results, hres]
    | enqueueSend => simp [EventBus.directs] at hdir
    | enqueueEnter hs hopen =>
      have hnone : w.enqueued (.enqueueEnter c) = [] := by simp [Bus.enqueued, hpc, hs, hopen]
      rw [hnone]
      exact (List.append_nil _).trans hres
    | @closeBroker order =>
      rw [results_enqueued_nil hpc rfl, List.append_nil]
      cases order <;> exact hres
    | @closeEvents _ rest =>
      rw [results_enqueued_nil hpc rfl, List.append_nil]
      cases rest <;> exact hres
    | _ =>
      rw [results_enqueued_nil hpc rfl, List.append_nil]
      exact hres
  · rw [hdir, results_enqueued_nil hpc rfl, List.append_nil]
    exact ⟨sent, rfl, hres⟩

end Steps

/-! ## Runs -/

/-- The results of call `c`, which has none before it is invoked. -/
def ResultsOf (log : List Obs) (res : List (SubPtr × Option Err)) (w : Bus) (c : CallId) : Prop :=
  match w.calls c with
  | none => res = []
  | some pc => pc.Results (directs log c) res

/-- A subscription that a call still has to send to is none of those it has sent to. -/
private theorem target_fresh {log : List Obs} (h : (Bus.lts config).Reach G log w) {pc : Pc}
    (hpc : w.calls c = some pc) (hp : p ∈ pc.targets)
    (hexit : ∀ ev s todo, pc ≠ .enqueueExit ev s todo none) :
    p ∉ directs log c := by
  have hacc := account_inv h c
  rw [Accounted, hpc] at hacc
  have hfan : ∀ {sent todo}, InFanOut log c sent todo → p ∈ todo → p ∉ directs log c := by
    rintro sent todo ⟨hsnap, -, rfl, -⟩ hp hmem
    have hnodup := snapshot_nodup h
      (mem_snapshots.mp (by rw [hsnap]; exact List.mem_singleton_self _))
    exact (List.nodup_append.mp hnodup).2.2 p hmem p hp rfl
  cases pc with
  | fanOut | enqueueEntered | enqueueSelect =>
    obtain ⟨sent, hf⟩ := hacc
    exact hfan hf hp
  | enqueueExit ev s todo err =>
    cases err with
    | none => exact absurd rfl (hexit ev s todo)
    | some err =>
      obtain ⟨sent, hf⟩ := hacc
      exact hfan hf hp
  | _ => cases hp

/-- The results of `enqueue` follow the queues that a call has sent to. -/
theorem results_inv {log : List (Obs ⊕ Enqueued)} (h : (Bus.calling config).Reach G log w)
    (c : CallId) :
    ResultsOf (Lts.inner log) (results (Lts.extra log) c) w c := by
  refine h.induct_reach
    (P := fun log w => ResultsOf (Lts.inner log) (results (Lts.extra log) c) w c) ?_ ?_
  · rintro _ rfl
    rfl
  intro log w a w' os hr hinv _ hstep
  obtain ⟨hstep, hextra⟩ := Lts.observe_step hstep
  have hr : (Bus.lts config).Reach G (Lts.inner log) w := hr.of_observe
  rw [Lts.inner_append, Lts.extra_append, results_append, hextra]
  unfold ResultsOf at hinv ⊢
  rw [directs_append]
  rcases (step_effect hstep).cases_call c with
    ⟨hsame, hnot⟩ | ⟨op, hnone, hpc', hos⟩ | ⟨pc, pc', w₁, hpc, hm, rfl⟩
  · -- nothing is put in a queue for a call that does not move, nor is it told anything
    have hres : results (w.enqueued a) c = [] := by
      refine results_eq_nil ?_
      rintro e he rfl
      exact enqueued_moves hstep he hsame
    have hdir : directs (Lts.inner os) c = [] :=
      (untouched_of fun o ho hact => absurd hact (hnot o ho)).2.1
    rw [hsame, hres, hdir, List.append_nil, List.append_nil]
    exact hinv
  · have hacc := account_inv hr c
    rw [Accounted, hnone] at hacc
    have hres : results (w.enqueued a) c = [] := by
      refine results_eq_nil ?_
      rintro e he rfl
      rcases mem_enqueued he with ⟨-, -, -, _, _, _, hpc, -⟩ | ⟨-, -, _, _, hpc⟩ <;>
      · rw [hnone] at hpc
        cases hpc
    rw [hnone] at hinv
    replace hinv : results (Lts.extra log) c = [] := hinv
    rw [hpc', hinv, hres, hos, hacc.2.1]
    cases op <;> rfl
  · rw [hpc] at hinv
    rw [Bus.setPc_calls_self]
    exact hm.results hpc hinv fun p hp hexit => target_fresh hr hpc hp hexit

section Results

variable {log : List (Obs ⊕ Enqueued)}

/-- An error comes from a queue that the call has put nothing in, and ends the call. -/
theorem enqueued_error (h : (Bus.calling config).Reach G log w) {err : Err}
    (he : ⟨c, p, some err⟩ ∈ Lts.extra log) :
    p ∉ directs (Lts.inner log) c ∧ ∃ err', w.calls c = some (.returned (.failed err')) := by
  have hres := results_inv h c
  have hmem := mem_results.mpr he
  unfold ResultsOf at hres
  -- all other results are without error
  have hclean : ∀ sent : List SubPtr,
      (p, some err) ∉ sent.map fun s => (s, (none : Option Err)) := by simp
  split at hres
  · rw [hres] at hmem
    cases hmem
  · rename_i pc hpc
    unfold Pc.Results at hres
    split at hres
    · obtain ⟨before, -, hres⟩ := hres
      exact absurd (hres ▸ hmem) (hclean _)
    · rcases hres with hres | ⟨s, err', hs, hres⟩
      · exact absurd (hres ▸ hmem) (hclean _)
      · rw [hres, List.mem_append] at hmem
        obtain ⟨rfl, -⟩ := Prod.mk.inj (List.mem_singleton.mp (hmem.resolve_left (hclean _)))
        exact ⟨hs, _, hpc⟩
    · exact absurd (hres ▸ hmem) (hclean _)

/-- A call sends at most once to each subscription. -/
theorem directs_nodup {log : List Obs} (h : (Bus.lts config).Reach G log w) (c : CallId) :
    (directs log c).Nodup := by
  rcases account_cases (account_inv h c) with
    ⟨-, hdir, -⟩ | ⟨-, hdir, -⟩ | ⟨sent, todo, hsnap, -, rfl, -⟩
  · rw [hdir]
    exact .nil
  · rw [hdir]
    exact .nil
  · have hsnap := mem_snapshots.mp (by rw [hsnap]; exact List.mem_singleton_self _)
    exact (List.nodup_append.mp (snapshot_nodup h hsnap)).1

/-- A call is told at most once that its event is in a queue. -/
theorem results_count (h : (Bus.calling config).Reach G log w) :
    (results (Lts.extra log) c).count (p, none) ≤ 1 := by
  have hres := results_inv h c
  have hdir := directs_nodup h.of_observe c
  have hmap : ∀ sent : List SubPtr, sent.Nodup →
      (sent.map fun s => (s, (none : Option Err))).count (p, none) ≤ 1 := by
    intro sent hsent
    exact List.nodup_iff_count_le_one.mp (hsent.map fun s s' heq => (Prod.mk.inj heq).1) _
  unfold ResultsOf at hres
  split at hres
  · rw [hres]
    exact Nat.zero_le _
  · unfold Pc.Results at hres
    split at hres
    · obtain ⟨before, hsent, hres⟩ := hres
      rw [hsent] at hdir
      rw [hres]
      exact hmap _ (List.nodup_append.mp hdir).1
    · rcases hres with hres | ⟨s, err, -, hres⟩
      · rw [hres]
        exact hmap _ hdir
      · rw [hres, List.count_append, List.count_singleton]
        simpa using hmap _ hdir
    · rw [hres]
      exact hmap _ hdir

/-- Once nobody is sending to a queue, the calls that were told so have put their event in it,
    and no others. -/
theorem enqueued_nil_iff (h : (Bus.calling config).Reach G log w) (hidle : ¬w.InEnqueue c p) :
    ⟨c, p, none⟩ ∈ Lts.extra log ↔ p ∈ directs (Lts.inner log) c := by
  have hres := results_inv h c
  rw [← mem_results]
  unfold ResultsOf at hres
  have hmap : ∀ sent : List SubPtr,
      (p, none) ∈ sent.map (fun s => (s, (none : Option Err))) ↔ p ∈ sent := by simp
  split at hres
  · rename_i hnone
    have hacc := account_inv h.of_observe c
    rw [Accounted, hnone] at hacc
    rw [hres, hacc.2.1]
    simp
  · rename_i pc hpc
    unfold Pc.Results at hres
    split at hres
    · rename_i s _
      obtain ⟨before, hsent, hres⟩ := hres
      have hne : p ≠ s := by
        rintro rfl
        exact hidle ⟨_, hpc, rfl⟩
      rw [hres, hsent, hmap, List.mem_append, List.mem_singleton, or_iff_left hne]
    · rcases hres with hres | ⟨s, err, -, hres⟩
      · rw [hres, hmap]
      · rw [hres, List.mem_append, hmap]
        simp
    · rw [hres, hmap]

end Results

end EventBus
