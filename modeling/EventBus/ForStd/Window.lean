import Mathlib.Data.Finset.Card
import Mathlib.Data.Finset.Dedup
import Mathlib.Data.List.DropRight

/-!
# Windows

A bounded memory that forgets its oldest entry holds the last `n` of the entries ever made.
`List.rtake n` is that window of a history.

## Key results

- `rtake_concat_of_le`, `rtake_concat_of_lt`: how the window moves when an entry is made
- `mem_rtake_of_few`: an entry is in the window while fewer than `n` others have followed it
- `mem_rtake_of_lt`, `rtake_append_of_length_eq`: an entry leaves the window when `n` entries
  have followed it
-/

namespace List

variable {α : Type*} {l : List α} {n : Nat}

theorem rtake_of_length_le (h : l.length ≤ n) : l.rtake n = l := by
  rw [rtake, Nat.sub_eq_zero_of_le h, drop_zero]

theorem length_rtake (l : List α) (n : Nat) : (l.rtake n).length = min n l.length := by
  rw [rtake, length_drop]
  omega

/-- No window is longer than the history. -/
theorem rtake_min_length (l : List α) (n : Nat) : l.rtake (min l.length n) = l.rtake n := by
  have hsub : l.length - min l.length n = l.length - n := by omega
  rw [rtake, rtake, hsub]

theorem rtake_suffix (l : List α) (n : Nat) : l.rtake n <:+ l := drop_suffix _ _

/-- A window that is not full keeps what it has. -/
theorem rtake_concat_of_lt (h : l.length < n) (x : α) : (l ++ [x]).rtake n = l.rtake n ++ [x] := by
  rw [rtake_of_length_le (by rw [length_append, length_singleton]; omega),
    rtake_of_length_le h.le]

/-- A full window loses its first entry. -/
theorem rtake_concat_of_le (hn : n ≠ 0) (h : n ≤ l.length) (x : α) :
    ∃ y ys, l.rtake n = y :: ys ∧ (l ++ [x]).rtake n = ys ++ [x] := by
  obtain ⟨m, rfl⟩ := Nat.exists_eq_succ_of_ne_zero hn
  have hlt : l.length - (m + 1) < l.length := by omega
  refine ⟨l[l.length - (m + 1)], l.rtake m, ?_, rtake_concat_succ l m x⟩
  rw [rtake, drop_eq_getElem_cons hlt, rtake]
  congr 2
  omega

/-- An entry that fewer than `n` entries have followed is in the window of the last `n`. -/
theorem mem_rtake_of_lt {pre post : List α} {x : α} (h : post.length < n) :
    x ∈ (pre ++ x :: post).rtake n := by
  have hle : (pre ++ x :: post).length - n ≤ pre.length := by
    rw [length_append, length_cons]
    omega
  rw [rtake, drop_append_of_le_length hle]
  exact mem_append_right _ mem_cons_self

/-- The last `n` entries are the window. -/
theorem rtake_append_of_length_eq {pre post : List α} (h : post.length = n) :
    (pre ++ post).rtake n = post := by
  have hsub : (pre ++ post).length - n = pre.length := by
    rw [length_append]
    omega
  rw [rtake, hsub, drop_left]

/-- An entry that fewer than `n` others have followed is in the window of the last `n`, if
    that window has no entry twice. -/
theorem mem_rtake_of_few [DecidableEq α] {pre post : List α} {x : α}
    (hnodup : ((pre ++ x :: post).rtake n).Nodup) (hfew : (post.toFinset.erase x).card < n) :
    x ∈ (pre ++ x :: post).rtake n := by
  by_contra hx
  have hsuffix := rtake_suffix (pre ++ x :: post) n
  -- without `x` the window lies behind it
  have hpost : (pre ++ x :: post).rtake n <:+ post := by
    rcases Nat.lt_or_ge post.length ((pre ++ x :: post).rtake n).length with hlong | hshort
    · have hcons : x :: post <:+ (pre ++ x :: post).rtake n :=
        suffix_of_suffix_length_le (suffix_append _ _) hsuffix (by rw [length_cons]; omega)
      exact absurd (hcons.subset mem_cons_self) hx
    · refine suffix_of_suffix_length_le hsuffix ?_ hshort
      exact (suffix_cons x post).trans (suffix_append _ _)
  have hsub : ((pre ++ x :: post).rtake n).toFinset ⊆ post.toFinset.erase x := by
    intro y hy
    rw [mem_toFinset] at hy
    refine Finset.mem_erase.mpr ⟨?_, mem_toFinset.mpr (hpost.subset hy)⟩
    rintro rfl
    exact hx hy
  have hle := Finset.card_le_card hsub
  rw [toFinset_card_of_nodup hnodup, length_rtake] at hle
  have hall : (pre ++ x :: post).length ≤ n := by omega
  rw [rtake_of_length_le hall] at hx
  exact hx (by simp)

end List
