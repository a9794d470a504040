import Mathlib.Data.List.Dedup
import Mathlib.Data.List.Induction

/-!
# List lemmas for logs

Generic lemmas about the order in which elements occur in a list, about lists that grow at
their end, about lists that repeat each of their elements, and about moving elements to the
front.
-/

namespace List

variable {α : Type*}

/-- Some occurrence of `x` in `l` comes before some occurrence of `y`. -/
def Precedes (l : List α) (x y : α) : Prop := ∃ l₁ l₂, l = l₁ ++ l₂ ∧ x ∈ l₁ ∧ y ∈ l₂

theorem Precedes.mem_left {l : List α} {x y : α} (h : l.Precedes x y) : x ∈ l := by
  obtain ⟨l₁, l₂, rfl, hx, -⟩ := h
  exact mem_append_left _ hx

theorem Precedes.mem_right {l : List α} {x y : α} (h : l.Precedes x y) : y ∈ l := by
  obtain ⟨l₁, l₂, rfl, -, hy⟩ := h
  exact mem_append_right _ hy

@[simp] theorem not_precedes_nil (x y : α) : ¬([] : List α).Precedes x y :=
  fun h => by simpa using h.mem_left

@[simp] theorem not_precedes_singleton (a x y : α) : ¬[a].Precedes x y := by
  rintro ⟨l₁, l₂, heq, hx, hy⟩
  have hlen := congrArg length heq
  have h₁ := length_pos_of_mem hx
  have h₂ := length_pos_of_mem hy
  simp only [length_singleton, length_append] at hlen
  omega

/-- Order in an appended list: within one of the parts, or across them. -/
theorem precedes_append {l m : List α} {x y : α} :
    (l ++ m).Precedes x y ↔ l.Precedes x y ∨ m.Precedes x y ∨ (x ∈ l ∧ y ∈ m) := by
  constructor
  · rintro ⟨l₁, l₂, heq, hx, hy⟩
    rcases append_eq_append_iff.mp heq with ⟨k, rfl, rfl⟩ | ⟨k, rfl, rfl⟩
    · rcases mem_append.mp hx with hx | hx
      · exact .inr (.inr ⟨hx, mem_append_right _ hy⟩)
      · exact .inr (.inl ⟨k, l₂, rfl, hx, hy⟩)
    · rcases mem_append.mp hy with hy | hy
      · exact .inl ⟨l₁, k, rfl, hx, hy⟩
      · exact .inr (.inr ⟨mem_append_left _ hx, hy⟩)
  · rintro (⟨l₁, l₂, rfl, hx, hy⟩ | ⟨l₁, l₂, rfl, hx, hy⟩ | ⟨hx, hy⟩)
    · exact ⟨l₁, l₂ ++ m, by simp, hx, mem_append_left _ hy⟩
    · exact ⟨l ++ l₁, l₂, by simp, mem_append_right _ hx, hy⟩
    · exact ⟨l, m, rfl, hx, hy⟩

theorem precedes_cons {l : List α} {a x y : α} :
    (a :: l).Precedes x y ↔ l.Precedes x y ∨ (x = a ∧ y ∈ l) := by
  have := precedes_append (l := [a]) (m := l) (x := x) (y := y)
  simpa using this

theorem getElem?_concat_of_ne {l : List α} {a : α} {i : Nat} (h : i ≠ l.length) :
    (l ++ [a])[i]? = l[i]? := by
  rw [getElem?_append]
  split
  · rfl
  · rw [getElem?_eq_none (by rw [length_singleton]; omega), getElem?_eq_none (by omega)]

/-- An element of a list with one more at its end is an old one or the new one. -/
theorem getElem?_concat_cases {l : List α} {a b : α} {i : Nat} (h : (l ++ [a])[i]? = some b) :
    l[i]? = some b ∨ (i = l.length ∧ b = a) := by
  rw [getElem?_append] at h
  split at h
  · exact .inl h
  · rename_i hge
    obtain ⟨hlt, rfl⟩ := getElem?_eq_some_iff.mp h
    rw [length_singleton] at hlt
    exact .inr ⟨by omega, by simp⟩

/-- An element of a list with one element replaced is the new one or an old one. -/
theorem getElem?_set_cases {l : List α} {a b : α} {i j : Nat} (h : (l.set i a)[j]? = some b) :
    (j = i ∧ b = a) ∨ (j ≠ i ∧ l[j]? = some b) := by
  by_cases hij : j = i
  · subst hij
    obtain ⟨hlt, rfl⟩ := getElem?_eq_some_iff.mp h
    exact .inl ⟨rfl, by simp⟩
  · rw [getElem?_set_ne (Ne.symm hij)] at h
    exact .inr ⟨hij, h⟩

/-- A replaced element is the new one. -/
theorem getElem?_set_of_eq_some {l : List α} {a b : α} {i : Nat} (h : l[i]? = some b) :
    (l.set i a)[i]? = some a := getElem?_set_self (getElem?_eq_some_iff.mp h).1

/-- If a list has one element with `p` at most, two such elements are the same. -/
theorem eq_of_countP_le_one {l : List α} {p : α → Bool} (h : l.countP p ≤ 1) {a b : α}
    (ha : a ∈ l) (hpa : p a = true) (hb : b ∈ l) (hpb : p b = true) : a = b := by
  rw [countP_eq_length_filter] at h
  have hamem : a ∈ l.filter p := mem_filter.mpr ⟨ha, hpa⟩
  have hbmem : b ∈ l.filter p := mem_filter.mpr ⟨hb, hpb⟩
  match hl : l.filter p, h with
  | [], _ =>
    rw [hl] at hamem
    exact nomatch hamem
  | [x], _ =>
    rw [hl] at hamem hbmem
    exact (mem_singleton.mp hamem).trans (mem_singleton.mp hbmem).symm

/-- A sublist of a list that repeats `f b` for each `b` in turn does so too, less often. -/
theorem Sublist.flatMap_replicate {β : Type*} {l : List α} {bs : List β} {n : β → Nat} {f : β → α}
    (h : l <+ bs.flatMap fun b => replicate (n b) (f b)) :
    ∃ cs : List (β × Nat), cs.map Prod.fst = bs ∧ (∀ c ∈ cs, c.2 ≤ n c.1) ∧
      l = cs.flatMap fun c => replicate c.2 (f c.1) := by
  induction bs generalizing l with
  | nil => exact ⟨[], rfl, by simp, by simpa using h⟩
  | cons b bs ih =>
    rw [flatMap_cons, sublist_append_iff] at h
    obtain ⟨l₁, l₂, rfl, h₁, h₂⟩ := h
    obtain ⟨m, hm, rfl⟩ := sublist_replicate_iff.mp h₁
    obtain ⟨cs, rfl, hle, rfl⟩ := ih h₂
    exact ⟨(b, m) :: cs, rfl, forall_mem_cons.mpr ⟨hm, hle⟩, by simp⟩

/-- The lengths of some lists add up to that of the lists put together. -/
theorem foldl_add_length {β : Type*} (f : α → List β) (l : List α) (n : Nat) :
    l.foldl (fun n a => n + (f a).length) n = n + (l.flatMap f).length := by
  induction l generalizing n with
  | nil => simp
  | cons a l ih =>
    rw [foldl_cons, ih, flatMap_cons, length_append]
    omega

/-- What has come out of a pipe, and what is in it, is part of what went in: one more step. -/
theorem Sublist.through {out out' held held' inp inp' : List α} (h : (out ++ held).Sublist inp)
    (hstep : (out' ++ held').Sublist (held ++ inp')) :
    ((out ++ out') ++ held').Sublist (inp ++ inp') := by
  rw [append_assoc]
  refine (hstep.append_left out).trans ?_
  rw [← append_assoc]
  exact h.append_right inp'

/-! ## Move to front -/

section MoveToFront

variable [DecidableEq α]

/-- `a` is moved to the front, or entered there. -/
def moveToFront (l : List α) (a : α) : List α := a :: l.filter (· ≠ a)

theorem dedup_concat (l : List α) (a : α) : (l ++ [a]).dedup = l.dedup.filter (· ≠ a) ++ [a] := by
  induction l with
  | nil => rfl
  | cons b l ih =>
    by_cases hb : b ∈ l
    · rw [cons_append, dedup_cons_of_mem (mem_append_left _ hb), dedup_cons_of_mem hb, ih]
    · rw [dedup_cons_of_notMem hb]
      by_cases hba : b = a
      · subst hba
        rw [cons_append, dedup_cons_of_mem mem_concat_self, ih]
        simp
      · rw [cons_append, dedup_cons_of_notMem (by simp [hb, hba]), ih]
        simp [hba]

/-- What has been moved comes first, the latest at the front, and the rest stays in its order. -/
theorem foldl_moveToFront (l as : List α) :
    as.foldl moveToFront l = as.dedup.reverse ++ l.filter (· ∉ as) := by
  induction as using List.reverseRecOn with
  | nil => simp
  | append_singleton as a ih =>
    rw [foldl_append, foldl_cons, foldl_nil, ih, dedup_concat, moveToFront, filter_append,
      filter_reverse, reverse_append, reverse_singleton, filter_filter]
    simp [not_or, and_comm]

end MoveToFront

end List
