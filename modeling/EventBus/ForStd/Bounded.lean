import EventBus.ForStd.Lts

/-!
# Bounded work

How many steps a process takes before it is done, whatever the others do in between.
`counting own` marks the steps of one process in the log of a run, and `ownSteps` counts
them. A rank that every step of the process lowers, and that other steps do not raise,
bounds the count; a step may also raise the rank if it reports that it does (`gain`).

## Key results

- `Reach.ownSteps_le`: a rank bounds the number of steps of a process
-/

namespace Lts

variable {State Action Obs : Type} {M : Lts State Action Obs} {G : State → Action → Prop}
  (own : Action → Prop) [DecidablePred own]

/-- `M` with a mark in the log for every step that is `own`. -/
def counting (M : Lts State Action Obs) : Lts State Action (Obs ⊕ Unit) :=
  M.observe fun _ a => if own a then [()] else []

/-- The number of marked steps. -/
def ownSteps (log : List (Obs ⊕ Unit)) : Nat := (extra log).length

@[simp] theorem ownSteps_nil : ownSteps ([] : List (Obs ⊕ Unit)) = 0 := rfl

@[simp] theorem ownSteps_append (log log' : List (Obs ⊕ Unit)) :
    ownSteps (log ++ log') = ownSteps log + ownSteps log' := by
  simp [ownSteps]

variable {own}

/-- A step counts as one if it is `own`, and not otherwise. -/
theorem counting_step {s s' : State} {a : Action} {log : List (Obs ⊕ Unit)}
    (h : (M.counting own).step s a = some (s', log)) :
    M.step s a = some (s', inner log) ∧ ownSteps log = if own a then 1 else 0 := by
  obtain ⟨hstep, hextra⟩ := observe_step h
  refine ⟨hstep, ?_⟩
  rw [ownSteps, hextra]
  split <;> rfl

/-- The counting rule. While `P` holds, a step lowers `rank` if it is `own` and does not raise
    it otherwise, up to what it gains by its observations. Then a run has at most as many own
    steps as the rank at its start and the gains along the run allow. -/
theorem Reach.ownSteps_le {P : State → Prop} (rank : State → Nat) (gain : List Obs → Nat)
    (hnil : gain [] = 0) (happend : ∀ log log', gain (log ++ log') = gain log + gain log')
    (hstep : ∀ log s a s' os, M.Reach G log s → P s → G s a → M.step s a = some (s', os) →
      P s' ∧ rank s' + (if own a then 1 else 0) ≤ rank s + gain os)
    {s s' : State} {log : List Obs} {log' : List (Obs ⊕ Unit)} (h : M.Reach G log s) (hP : P s)
    (hsteps : (M.counting own).Steps G s log' s') :
    P s' ∧ ownSteps log' + rank s' ≤ rank s + gain (inner log') := by
  induction hsteps with
  | refl => simp [hP, hnil]
  | @snoc s₁ s₂ log₁ os a hsteps hg hs ih =>
    obtain ⟨hP₁, hle⟩ := ih
    obtain ⟨hs', hone⟩ := counting_step hs
    obtain ⟨hP₂, hless⟩ := hstep _ _ _ _ _ (h.trans hsteps.of_observe) hP₁ hg hs'
    refine ⟨hP₂, ?_⟩
    -- what this step adds to the count it takes from the rank
    rw [ownSteps_append, inner_append, happend, hone]
    omega

end Lts
