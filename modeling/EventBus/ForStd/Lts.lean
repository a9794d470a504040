import EventBus.ForStd.List

/-!
# Transition systems with observations

A concurrent program is modelled as a transition system: an action names the
goroutine that moves and resolves every choice the scheduler or the runtime has
(which `select` case fires, in which order a map is iterated), so that `step` is
an executable partial function. Each step also reports what it did, and a run
accumulates these observations in a log. Properties of whole runs are properties
of logs.

`Steps G` restricts a run to steps that satisfy the guard `G`, a condition on the
state before the step and on the action. `Always` is the guard of unrestricted runs.

## Key results

- `Steps.invariant`: a property kept by every step holds at the end of every run
- `Reach.forever`: a property that steps from reachable states keep holds for ever
- `Reach.progress`: a goal that is met unless a measure decreases is met
- `Steps.project`: a run of a system is a run of each component it is built from
- `Reach.once`, `Reach.not_precedes`: observations made at most once, or in one order only
- `Reach.of_observe`: a run whose steps are observed more closely is a run
- `Reach.induct_history`: the invariant rule for guards that depend on the run so far
- `steps_of_runWhere`, `reach_of_runWhere`: an executable run is a run
-/

/-- A transition system with an executable step function. A step of an enabled
    action yields the next state and the observations made by the step. -/
structure Lts (State Action Obs : Type) where
  init : State → Prop
  step : State → Action → Option (State × List Obs)

namespace Lts

variable {State Action Obs : Type}

/-- The guard that admits every step. -/
def Always (_ : State) (_ : Action) : Prop := True

instance (s : State) (a : Action) : Decidable (Always s a) := .isTrue trivial

/-- `M.Steps G s log s'`: from `s`, a sequence of steps that all satisfy `G`
    leads to `s'` and makes the observations `log`. -/
inductive Steps (M : Lts State Action Obs) (G : State → Action → Prop) :
    State → List Obs → State → Prop
  | refl (s : State) : Steps M G s [] s
  | snoc {s s₁ s₂ : State} {log os : List Obs} {a : Action} :
      Steps M G s log s₁ → G s₁ a → M.step s₁ a = some (s₂, os) → Steps M G s (log ++ os) s₂

/-- `M.Reach G log s`: a run from an initial state, all of whose steps satisfy
    `G`, ends in `s` with log `log`. -/
def Reach (M : Lts State Action Obs) (G : State → Action → Prop)
    (log : List Obs) (s : State) : Prop :=
  ∃ s₀, M.init s₀ ∧ M.Steps G s₀ log s

variable {M : Lts State Action Obs} {G : State → Action → Prop}

/-- A single step is a run. -/
theorem Steps.single {s s' : State} {os : List Obs} {a : Action} (hg : G s a)
    (h : M.step s a = some (s', os)) : M.Steps G s os s' := by
  have := Steps.snoc (M := M) (Steps.refl (G := G) s) hg h
  simpa using this

/-- Runs compose. -/
theorem Steps.trans {s₁ s₂ s₃ : State} {log₁ log₂ : List Obs}
    (h₁ : M.Steps G s₁ log₁ s₂) (h₂ : M.Steps G s₂ log₂ s₃) :
    M.Steps G s₁ (log₁ ++ log₂) s₃ := by
  induction h₂ with
  | refl => simpa using h₁
  | snoc _ hg hs ih =>
    rw [← List.append_assoc]
    exact .snoc ih hg hs

/-- A run under a stronger guard is a run under a weaker one. -/
theorem Steps.mono {H : State → Action → Prop} {s s' : State} {log : List Obs}
    (h : M.Steps G s log s') (hGH : ∀ s a, G s a → H s a) : M.Steps H s log s' := by
  induction h with
  | refl => exact .refl _
  | snoc _ hg hs ih => exact .snoc ih (hGH _ _ hg) hs

/-- A property of the log and the state that every step keeps holds at the end of
    a run if it holds at its start, of the empty log. -/
theorem Steps.invariant {P : List Obs → State → Prop} {s s' : State} {log : List Obs}
    (h : M.Steps G s log s') (h0 : P [] s)
    (hstep : ∀ log s a s' os, P log s → G s a → M.step s a = some (s', os) → P (log ++ os) s') :
    P log s' := by
  induction h with
  | refl => exact h0
  | snoc _ hg hs ih => exact hstep _ _ _ _ _ ih hg hs

/-- A property of the state that every step keeps holds at the end of a run if it holds at
    its start. -/
theorem Steps.stable {P : State → Prop} {s s' : State} {log : List Obs} (h : M.Steps G s log s')
    (h0 : P s) (hstep : ∀ s a s' os, P s → G s a → M.step s a = some (s', os) → P s') : P s' := by
  induction h with
  | refl => exact h0
  | snoc _ hg hs ih => exact hstep _ _ _ _ ih hg hs

/-- A run satisfies every guard that follows from its own and from a property its steps keep. -/
theorem Steps.strengthen {P : State → Prop} {H : State → Action → Prop} {s s' : State}
    {log : List Obs} (h : M.Steps G s log s') (h0 : P s)
    (hstep : ∀ s a s' os, P s → G s a → M.step s a = some (s', os) → P s')
    (hGH : ∀ s a, P s → G s a → H s a) : M.Steps H s log s' := by
  have : M.Steps H s log s' ∧ P s' := by
    induction h with
    | refl => exact ⟨.refl _, h0⟩
    | snoc _ hg hs ih => exact ⟨.snoc ih.1 (hGH _ _ ih.2 hg) hs, hstep _ _ _ _ ih.2 hg hs⟩
  exact this.1

/-- The invariant rule: a property that holds initially, of the empty log, and is
    kept by every step holds at the end of every run. -/
theorem Reach.invariant {P : List Obs → State → Prop} {s : State} {log : List Obs}
    (h : M.Reach G log s) (h0 : ∀ s, M.init s → P [] s)
    (hstep : ∀ log s a s' os, P log s → G s a → M.step s a = some (s', os) → P (log ++ os) s') :
    P log s := by
  obtain ⟨s₀, hinit, hsteps⟩ := h
  exact hsteps.invariant (h0 s₀ hinit) hstep

/-- One more step extends a run. -/
theorem Reach.next {s s' : State} {log os : List Obs} {a : Action} (h : M.Reach G log s)
    (hg : G s a) (hs : M.step s a = some (s', os)) : M.Reach G (log ++ os) s' := by
  obtain ⟨s₀, hinit, hsteps⟩ := h
  exact ⟨s₀, hinit, .snoc hsteps hg hs⟩

/-- A run can be continued by a run. -/
theorem Reach.trans {s s' : State} {log log' : List Obs} (h : M.Reach G log s)
    (h' : M.Steps G s log' s') : M.Reach G (log ++ log') s' := by
  obtain ⟨s₀, hinit, hsteps⟩ := h
  exact ⟨s₀, hinit, hsteps.trans h'⟩

/-- The guard of a run may be weakened. -/
theorem Reach.mono {H : State → Action → Prop} {s : State} {log : List Obs}
    (h : M.Reach G log s) (hGH : ∀ s a, G s a → H s a) : M.Reach H log s := by
  obtain ⟨s₀, hinit, hsteps⟩ := h
  exact ⟨s₀, hinit, hsteps.mono hGH⟩

/-- The invariant rule for properties whose step uses what is known of reachable states. -/
theorem Reach.induct_reach {P : List Obs → State → Prop} {s : State} {log : List Obs}
    (h : M.Reach G log s) (h0 : ∀ s, M.init s → P [] s)
    (hstep : ∀ log s a s' os, M.Reach G log s → P log s → G s a →
      M.step s a = some (s', os) → P (log ++ os) s') : P log s := by
  have : M.Reach G log s ∧ P log s := by
    refine h.invariant (P := fun log s => M.Reach G log s ∧ P log s) ?_ ?_
    · exact fun s hs => ⟨⟨s, hs, .refl s⟩, h0 s hs⟩
    · exact fun log s a s' os ⟨hr, hp⟩ hg hs => ⟨hr.next hg hs, hstep log s a s' os hr hp hg hs⟩
  exact this.2

/-- A property that every step from a reachable state keeps holds for ever. -/
theorem Reach.forever {P : List Obs → State → Prop} {s s' : State} {log log' : List Obs}
    (h : M.Reach G log s) (hP : P log s) (hsteps : M.Steps G s log' s')
    (hstep : ∀ log s a s' os, M.Reach G log s → P log s → G s a →
      M.step s a = some (s', os) → P (log ++ os) s') : P (log ++ log') s' := by
  induction hsteps with
  | refl => simpa using hP
  | snoc hsteps hg hs ih =>
    rw [← List.append_assoc]
    exact hstep _ _ _ _ _ (h.trans hsteps) ih hg hs

/-- The progress rule: if every reachable state with `P` has a continuation that meets the goal
    `Q`, or that keeps `P` and lowers `μ`, then the goal is met after finitely many steps. -/
theorem Reach.progress {P : List Obs → State → Prop} {Q : List Obs → Prop} (μ : State → Nat)
    (hstep : ∀ log s, M.Reach G log s → P log s → ∃ os s', M.Steps G s os s' ∧
      (Q (log ++ os) ∨ P (log ++ os) s' ∧ μ s' < μ s))
    {s : State} {log : List Obs} (h : M.Reach G log s) (hP : P log s) :
    ∃ os s', M.Steps G s os s' ∧ Q (log ++ os) := by
  induction hn : μ s using Nat.strongRecOn generalizing s log with
  | ind n ih =>
    obtain ⟨os, s₁, hsteps, hgoal | ⟨hP₁, hless⟩⟩ := hstep log s h hP
    · exact ⟨os, s₁, hsteps, hgoal⟩
    · obtain ⟨os', s', hsteps', hgoal⟩ := ih (μ s₁) (hn ▸ hless) (h.trans hsteps) hP₁ rfl
      refine ⟨os ++ os', s', hsteps.trans hsteps', ?_⟩
      rw [← List.append_assoc]
      exact hgoal

/-- What a step observes only where `Q` fails, and makes `Q` hold for good, is observed at
    most once. -/
theorem Reach.once [DecidableEq Obs] {Q : State → Prop} {o : Obs} {s : State} {log : List Obs}
    (h : M.Reach G log s)
    (hstable : ∀ log s a s' os, M.Reach G log s → M.step s a = some (s', os) → Q s → Q s')
    (hemit : ∀ log s a s' os, M.Reach G log s → M.step s a = some (s', os) → o ∈ os →
      ¬Q s ∧ Q s' ∧ os.count o = 1) :
    log.count o ≤ 1 ∧ (o ∈ log → Q s) := by
  refine h.induct_reach (P := fun log s => log.count o ≤ 1 ∧ (o ∈ log → Q s)) (by simp) ?_
  rintro log s a s' os hr ⟨hcount, hQ⟩ - hs
  rw [List.count_append]
  by_cases ho : o ∈ os
  · obtain ⟨hnQ, hQ', hone⟩ := hemit log s a s' os hr hs ho
    rw [List.count_eq_zero_of_not_mem fun hmem => hnQ (hQ hmem), hone]
    exact ⟨Nat.le_refl _, fun _ => hQ'⟩
  · rw [List.count_eq_zero_of_not_mem ho]
    refine ⟨hcount, fun hmem => hstable log s a s' os hr hs (hQ ?_)⟩
    exact (List.mem_append.mp hmem).resolve_right ho

/-- What no step observes once `o` has been observed never comes after `o`. -/
theorem Reach.not_precedes {Q : State → Prop} {o o' : Obs} {s : State} {log : List Obs}
    (h : M.Reach G log s) (hQ : ∀ log s, M.Reach G log s → o ∈ log → Q s)
    (hemit : ∀ log s a s' os, M.Reach G log s → M.step s a = some (s', os) → o' ∈ os →
      ¬Q s ∧ o ∉ os) : ¬log.Precedes o o' := by
  refine h.induct_reach (P := fun log _ => ¬log.Precedes o o') (by simp) ?_
  intro log s a s' os hr hnot _ hs hprec
  rcases List.precedes_append.mp hprec with hp | hp | ⟨ho, ho'⟩
  · exact hnot hp
  · exact (hemit log s a s' os hr hs hp.mem_right).2 hp.mem_left
  · exact (hemit log s a s' os hr hs ho').1 (hQ log s hr ho)

/-- An observation of a run was made by one of its steps, taken in a reachable
    state between two parts of the run. -/
theorem Steps.exists_step_of_mem {s s' : State} {log : List Obs} (h : M.Steps G s log s')
    {o : Obs} (ho : o ∈ log) :
    ∃ log₁ s₁ a s₂ os log₂, M.Steps G s log₁ s₁ ∧ G s₁ a ∧ M.step s₁ a = some (s₂, os) ∧
      o ∈ os ∧ M.Steps G s₂ log₂ s' ∧ log = log₁ ++ os ++ log₂ := by
  induction h with
  | refl => simp at ho
  | @snoc s₁ s₂ log os a hst hg hs ih =>
    rcases List.mem_append.mp ho with hmem | hmem
    · obtain ⟨log₁, t₁, b, t₂, os', log₂, h₁, hg', hs', ho', h₂, heq⟩ := ih hmem
      refine ⟨log₁, t₁, b, t₂, os', log₂ ++ os, h₁, hg', hs', ho', .snoc h₂ hg hs, ?_⟩
      rw [heq, List.append_assoc]
    · exact ⟨log, s₁, a, s₂, os, [], hst, hg, hs, hmem, .refl _, by simp⟩

/-- Projection of runs: if every step of `M` is, seen through `f` and `g`, a run
    of the component `N`, then so is every run of `M`. -/
theorem Steps.project {State' Action' Obs' : Type} {N : Lts State' Action' Obs'}
    {H : State' → Action' → Prop} (f : State → State') (g : Obs → Option Obs')
    (hstep : ∀ s a s' os, G s a → M.step s a = some (s', os) →
      N.Steps H (f s) (os.filterMap g) (f s'))
    {s s' : State} {log : List Obs} (h : M.Steps G s log s') :
    N.Steps H (f s) (log.filterMap g) (f s') := by
  induction h with
  | refl => exact .refl _
  | snoc _ hg hs ih =>
    rw [List.filterMap_append]
    exact ih.trans (hstep _ _ _ _ hg hs)

section Observe

variable {Extra : Type}

/-- `M` with more to see: `f` tells what a step shows beyond the observations of `M`. -/
def observe (M : Lts State Action Obs) (f : State → Action → List Extra) :
    Lts State Action (Obs ⊕ Extra) where
  init := M.init
  step s a := (M.step s a).map fun r => (r.1, r.2.map .inl ++ (f s a).map .inr)

/-- The observations of `M` itself. -/
def inner (log : List (Obs ⊕ Extra)) : List Obs := log.filterMap Sum.getLeft?

/-- What was seen beyond them. -/
def extra (log : List (Obs ⊕ Extra)) : List Extra := log.filterMap Sum.getRight?

@[simp] theorem inner_nil : inner ([] : List (Obs ⊕ Extra)) = [] := rfl

@[simp] theorem extra_nil : extra ([] : List (Obs ⊕ Extra)) = [] := rfl

@[simp] theorem inner_append (log log' : List (Obs ⊕ Extra)) :
    inner (log ++ log') = inner log ++ inner log' := List.filterMap_append

@[simp] theorem extra_append (log log' : List (Obs ⊕ Extra)) :
    extra (log ++ log') = extra log ++ extra log' := List.filterMap_append

variable {f : State → Action → List Extra}

/-- A step shows its own observations first. -/
theorem observe_step_eq {s s' : State} {a : Action} {log : List (Obs ⊕ Extra)}
    (h : (M.observe f).step s a = some (s', log)) :
    ∃ os, M.step s a = some (s', os) ∧ log = os.map .inl ++ (f s a).map .inr := by
  simp only [observe, Option.map_eq_some_iff] at h
  obtain ⟨⟨s₁, os⟩, hstep, heq⟩ := h
  obtain ⟨rfl, rfl⟩ := Prod.mk.inj heq
  exact ⟨os, hstep, rfl⟩

theorem observe_step {s s' : State} {a : Action} {log : List (Obs ⊕ Extra)}
    (h : (M.observe f).step s a = some (s', log)) :
    M.step s a = some (s', inner log) ∧ extra log = f s a := by
  obtain ⟨os, hstep, rfl⟩ := observe_step_eq h
  simp [inner, extra, hstep, List.filterMap_map, Function.comp_def]

/-- A run that is observed more closely is a run. -/
theorem Steps.of_observe {s s' : State} {log : List (Obs ⊕ Extra)}
    (h : (M.observe f).Steps G s log s') : M.Steps G s (inner log) s' :=
  h.project id Sum.getLeft? fun _ _ _ _ hg hs => .single hg (observe_step hs).1

theorem Reach.of_observe {s : State} {log : List (Obs ⊕ Extra)}
    (h : (M.observe f).Reach G log s) : M.Reach G (inner log) s := by
  obtain ⟨s₀, hinit, hsteps⟩ := h
  exact ⟨s₀, hinit, hsteps.of_observe⟩

end Observe

section History

/-- `M` with the log of the run in its state, for guards that depend on what has happened. -/
def history (M : Lts State Action Obs) : Lts (State × List Obs) Action Obs where
  init s := M.init s.1 ∧ s.2 = []
  step s a := (M.step s.1 a).map fun r => ((r.1, s.2 ++ r.2), r.2)

variable {K : State × List Obs → Action → Prop}

theorem history_init {s : State} (h : M.init s) : M.history.init (s, []) := ⟨h, rfl⟩

theorem history_step {s s' : State × List Obs} {a : Action} {os : List Obs}
    (h : M.history.step s a = some (s', os)) :
    M.step s.1 a = some (s'.1, os) ∧ s'.2 = s.2 ++ os := by
  simp only [history, Option.map_eq_some_iff] at h
  obtain ⟨⟨s₁, os₁⟩, hstep, heq⟩ := h
  obtain ⟨rfl, rfl⟩ := Prod.mk.inj heq
  exact ⟨hstep, rfl⟩

theorem history_step_of {s : State × List Obs} {s' : State} {a : Action} {os : List Obs}
    (h : M.step s.1 a = some (s', os)) : M.history.step s a = some ((s', s.2 ++ os), os) := by
  simp [history, h]

/-- What the state remembers is the log. -/
theorem Reach.history_eq {s : State × List Obs} {log : List Obs} (h : M.history.Reach K log s) :
    s.2 = log := by
  refine h.invariant (P := fun log s => s.2 = log) (fun _ hinit => hinit.2) ?_
  intro log s a s' os ih _ hs
  rw [(history_step hs).2, ih]

theorem Reach.of_history {s : State × List Obs} {log : List Obs} (h : M.history.Reach K log s)
    (hKG : ∀ s a, K s a → G s.1 a) : M.Reach G log s.1 := by
  refine h.invariant (P := fun log s => M.Reach G log s.1) ?_ ?_
  · exact fun s hinit => ⟨s.1, hinit.1, .refl _⟩
  · exact fun log s a s' os ih hk hs => ih.next (hKG s a hk) (history_step hs).1

/-- Every run is one with the log in its state. -/
theorem Reach.to_history {s : State} {log : List Obs} (h : M.Reach G log s) :
    M.history.Reach (fun s a => G s.1 a) log (s, log) := by
  refine h.invariant (P := fun log s => M.history.Reach (fun s a => G s.1 a) log (s, log)) ?_ ?_
  · exact fun s hinit => ⟨(s, []), ⟨hinit, rfl⟩, .refl _⟩
  · intro log s a s' os ih hg hs
    exact ih.next (a := a) hg (history_step_of hs)

/-- The invariant rule for guards that depend on the run so far. -/
theorem Reach.induct_history {P : List Obs → State → Prop} {s : State × List Obs}
    {log : List Obs} (h : M.history.Reach K log s) (h0 : ∀ s, M.init s → P [] s)
    (hstep : ∀ log s a s' os, M.history.Reach K log (s, log) → P log s → K (s, log) a →
      M.step s a = some (s', os) → P (log ++ os) s') : P log s.1 := by
  refine h.induct_reach (P := fun log s => P log s.1) (fun s hinit => h0 s.1 hinit.1) ?_
  rintro log ⟨s, log'⟩ a s' os hr ih hk hs
  obtain rfl : log' = log := hr.history_eq
  exact hstep log' s a s'.1 os hr ih hk (history_step hs).1

end History

/-- Perform a list of actions, each of which must be enabled and satisfy `G`. -/
def runWhere (M : Lts State Action Obs) (G : State → Action → Prop)
    [∀ s a, Decidable (G s a)] : State → List Action → Option (State × List Obs)
  | s, [] => some (s, [])
  | s, a :: as =>
    if G s a then
      match M.step s a with
      | none => none
      | some (s₁, os) =>
        match M.runWhere G s₁ as with
        | none => none
        | some (s₂, log) => some (s₂, os ++ log)
    else none

/-- What `runWhere` computes is a run. -/
theorem steps_of_runWhere [∀ s a, Decidable (G s a)] (as : List Action) (s s' : State)
    (log : List Obs) (h : M.runWhere G s as = some (s', log)) : M.Steps G s log s' := by
  induction as generalizing s log with
  | nil =>
    simp only [runWhere, Option.some.injEq, Prod.mk.injEq] at h
    obtain ⟨rfl, rfl⟩ := h
    exact .refl _
  | cons a as ih =>
    simp only [runWhere] at h
    split at h
    · rename_i hg
      cases hs : M.step s a with
      | none => simp [hs] at h
      | some p =>
        obtain ⟨s₁, os⟩ := p
        cases hr : M.runWhere G s₁ as with
        | none => simp [hs, hr] at h
        | some q =>
          obtain ⟨s₂, log'⟩ := q
          simp only [hs, hr, Option.some.injEq, Prod.mk.injEq] at h
          obtain ⟨rfl, rfl⟩ := h
          exact (Steps.single hg hs).trans (ih s₁ log' hr)
    · exact nomatch h

/-- A property of what `runWhere` computes from an initial state holds of a run. -/
theorem reach_of_runWhere [∀ s a, Decidable (G s a)] {s₀ : State} (hinit : M.init s₀)
    (as : List Action) {Q : State × List Obs → Prop} (h : ∃ r ∈ M.runWhere G s₀ as, Q r) :
    ∃ log s, M.Reach G log s ∧ Q (s, log) := by
  obtain ⟨⟨s, log⟩, hrun, hQ⟩ := h
  exact ⟨log, s, ⟨s₀, hinit, steps_of_runWhere as s₀ s log hrun⟩, hQ⟩

end Lts
