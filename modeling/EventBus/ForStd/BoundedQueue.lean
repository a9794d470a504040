import Mathlib.Data.List.Induction
import Mathlib.Data.List.Nodup

/-!
# Bounded queues

A first-in first-out queue of at most `bound` elements. An element that enters at the back of
a full queue pushes out the oldest one; a batch is taken from the front. Beside what it holds
the queue records what it has lost on either way.

The bound is a field of the structure, so that no operation can build a longer queue.

## Key results

- `run_append`: one more operation
- `taken_append_held`: what was taken, followed by what is held, is what was appended without
  what was pushed out
-/

/-- A bounded queue with its past: the elements it holds, those it has pushed out, and the
    batches taken from it, all of them oldest first. -/
structure BoundedQueue (α : Type*) (bound : Nat) where
  held : List α
  pushedOut : List α
  batches : List (List α)
  fits : held.length ≤ bound

namespace BoundedQueue

variable {α : Type*} {bound : Nat}

/-- The queue to which nothing has happened. -/
def empty : BoundedQueue α bound := ⟨[], [], [], Nat.zero_le _⟩

/-- `x` enters at the back. If there is then one element too many, the oldest goes. -/
def append (q : BoundedQueue α bound) (x : α) : BoundedQueue α bound :=
  if h : (q.held ++ [x]).length ≤ bound then { q with held := q.held ++ [x], fits := h }
  else
    { q with
      held := (q.held ++ [x]).tail
      pushedOut := q.pushedOut ++ (q.held ++ [x]).take 1
      fits := by
        have := q.fits
        rw [List.length_tail, List.length_append, List.length_singleton]
        omega }

/-- The first `n` elements, or all if there are fewer, are taken from the front. -/
def take (q : BoundedQueue α bound) (n : Nat) : BoundedQueue α bound :=
  { q with
    held := q.held.drop (min q.held.length n)
    batches := q.batches ++ [q.held.take (min q.held.length n)]
    fits := by
      have := q.fits
      rw [List.length_drop]
      omega }

/-- An operation on a bounded queue. -/
inductive Op (α : Type*) where
  | append (x : α)
  | take (n : Nat)

def step (q : BoundedQueue α bound) : Op α → BoundedQueue α bound
  | .append x => q.append x
  | .take n => q.take n

/-- The queue after a sequence of operations. -/
def run (ops : List (Op α)) : BoundedQueue α bound := ops.foldl step empty

/-- The elements that a sequence of operations appends. -/
def appended (ops : List (Op α)) : List α :=
  ops.filterMap fun
    | .append x => some x
    | .take _ => none

@[simp] theorem run_nil : (run [] : BoundedQueue α bound) = empty := rfl

theorem run_append (ops : List (Op α)) (op : Op α) :
    (run (ops ++ [op]) : BoundedQueue α bound) = (run ops).step op := by
  simp [run]

theorem appended_append (ops : List (Op α)) (op : Op α) :
    appended (ops ++ [op]) = appended ops ++ appended [op] := List.filterMap_append

/-- A queue with room for one more holds it. -/
theorem append_of_lt {q : BoundedQueue α bound} (h : q.held.length < bound) (x : α) :
    (q.append x).held = q.held ++ [x] ∧ (q.append x).pushedOut = q.pushedOut ∧
      (q.append x).batches = q.batches := by
  have hfits : (q.held ++ [x]).length ≤ bound := by
    rw [List.length_append, List.length_singleton]
    omega
  rw [append, dif_pos hfits]
  exact ⟨rfl, rfl, rfl⟩

/-- A full queue loses its first element. -/
theorem append_of_ge {q : BoundedQueue α bound} (h : bound ≤ q.held.length) (x : α) :
    ∃ y ys, q.held ++ [x] = y :: ys ∧ (q.append x).held = ys ∧
      (q.append x).pushedOut = q.pushedOut ++ [y] ∧ (q.append x).batches = q.batches := by
  have hfull : ¬(q.held ++ [x]).length ≤ bound := by
    rw [List.length_append, List.length_singleton]
    omega
  obtain ⟨y, ys, heq⟩ : ∃ y ys, q.held ++ [x] = y :: ys :=
    List.exists_cons_of_ne_nil (List.append_ne_nil_of_right_ne_nil _ (List.cons_ne_nil _ _))
  rw [append, dif_neg hfull]
  refine ⟨y, ys, heq, ?_, ?_, rfl⟩
  · show (q.held ++ [x]).tail = ys
    rw [heq, List.tail_cons]
  · show q.pushedOut ++ (q.held ++ [x]).take 1 = q.pushedOut ++ [y]
    rw [heq, List.take_succ_cons, List.take_zero]

/-- Only what was appended can be pushed out. -/
theorem pushedOut_subset (ops : List (Op α)) :
    (run ops : BoundedQueue α bound).pushedOut ⊆ appended ops ∧
      (run ops : BoundedQueue α bound).held ⊆ appended ops := by
  induction ops using List.reverseRecOn with
  | nil => exact ⟨List.nil_subset _, List.nil_subset _⟩
  | append_singleton ops op ih =>
    obtain ⟨hout, hheld⟩ := ih
    rw [run_append, appended_append]
    cases op with
    | take n =>
      rw [show appended [Op.take n] = ([] : List α) from rfl, List.append_nil]
      exact ⟨hout, List.Subset.trans (List.drop_subset _ _) hheld⟩
    | append x =>
      have hall : (run ops : BoundedQueue α bound).held ++ [x] ⊆ appended ops ++ [x] :=
        List.append_subset.mpr ⟨List.Subset.trans hheld (List.subset_append_left _ _),
          List.subset_append_right _ _⟩
      have hout' := List.Subset.trans hout (List.subset_append_left (appended ops) [x])
      rcases Nat.lt_or_ge (run ops : BoundedQueue α bound).held.length bound with hlt | hge
      · obtain ⟨h₁, h₂, -⟩ := append_of_lt hlt x
        exact ⟨(h₂.symm ▸ hout' :), (h₁.symm ▸ hall :)⟩
      · obtain ⟨y, ys, heq, h₁, h₂, -⟩ := append_of_ge hge x
        rw [heq, List.cons_subset] at hall
        refine ⟨?_, (h₁.symm ▸ hall.2 :)⟩
        rw [step, h₂]
        exact List.append_subset.mpr ⟨hout', List.cons_subset.mpr ⟨hall.1, List.nil_subset _⟩⟩

/-- An element that occurs once can be filtered out. -/
private theorem filter_ne_middle [DecidableEq α] {l l' : List α} {y : α}
    (h : (l ++ y :: l').Nodup) : (l ++ y :: l').filter (· ≠ y) = l ++ l' := by
  rw [List.nodup_middle, List.nodup_cons, List.mem_append, not_or] at h
  have hkeep : ∀ {m : List α}, y ∉ m → m.filter (· ≠ y) = m := fun hy =>
    List.filter_eq_self.mpr fun z hz => decide_eq_true fun hzy => hy (hzy ▸ hz)
  rw [List.filter_append, List.filter_cons_of_neg (by simp), hkeep h.1.1, hkeep h.1.2]

/-- If no element is appended twice, the batches taken, followed by what is held, are the
    appended elements that were not pushed out, in the order in which they were appended. -/
theorem taken_append_held [DecidableEq α] (ops : List (Op α)) (hnodup : (appended ops).Nodup) :
    (run ops : BoundedQueue α bound).batches.flatten ++ (run ops : BoundedQueue α bound).held =
      (appended ops).filter (· ∉ (run ops : BoundedQueue α bound).pushedOut) := by
  induction ops using List.reverseRecOn with
  | nil => rfl
  | append_singleton ops op ih =>
    have hout : (run ops : BoundedQueue α bound).pushedOut ⊆ appended ops :=
      (pushedOut_subset ops).1
    rw [appended_append] at hnodup
    have hih := ih (List.Nodup.of_append_left hnodup)
    rw [run_append, appended_append]
    cases op with
    | take n =>
      -- the batch goes from the front of the one part to the end of the other
      rw [show appended [Op.take n] = ([] : List α) from rfl, List.append_nil]
      simp only [step, take, List.flatten_append, List.flatten_singleton, List.append_assoc,
        List.take_append_drop]
      exact hih
    | append x =>
      rw [show appended [Op.append x] = [x] from rfl] at hnodup ⊢
      have hx : x ∉ appended ops := fun hmem =>
        (List.disjoint_of_nodup_append hnodup) hmem (List.mem_singleton_self x)
      have hxout : x ∉ (run ops : BoundedQueue α bound).pushedOut := fun hmem => hx (hout hmem)
      -- what would be there if nothing were pushed out now
      have hall : (run ops : BoundedQueue α bound).batches.flatten ++
          ((run ops : BoundedQueue α bound).held ++ [x]) =
          (appended ops ++ [x]).filter (· ∉ (run ops : BoundedQueue α bound).pushedOut) := by
        rw [List.filter_append, ← hih, List.append_assoc, List.filter_singleton]
        simp [hxout]
      rcases Nat.lt_or_ge (run ops : BoundedQueue α bound).held.length bound with hlt | hge
      · obtain ⟨h₁, h₂, h₃⟩ := append_of_lt hlt x
        rw [step, h₁, h₂, h₃]
        exact hall
      · obtain ⟨y, ys, heq, h₁, h₂, h₃⟩ := append_of_ge hge x
        rw [step, h₁, h₂, h₃]
        rw [heq] at hall
        have hdistinct := hnodup.filter
          (fun z => decide (z ∉ (run ops : BoundedQueue α bound).pushedOut))
        rw [← hall] at hdistinct
        rw [← filter_ne_middle hdistinct, hall, List.filter_filter]
        refine List.filter_congr fun z _ => ?_
        simp only [List.mem_append, List.mem_singleton, not_or, ← Bool.decide_and]
        exact decide_eq_decide.mpr and_comm

end BoundedQueue
