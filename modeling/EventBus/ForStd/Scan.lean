import EventBus.ForStd.Codec

/-!
# Streams of encoded values

A stream is read value by value until it does not go on with one. For a reader that is exact,
that is, which reads what a writer writes and no more, the values that are read are those of
the longest part of the stream that consists of encodings, and a stream that is cut yields a
part of the values.

## Key results

- `scan_append`: encoded values at the front of a stream are read
- `scan_framed`: what is read was encoded, and the stream does not go on with a value
- `prefix_scan`: no longer part of the stream consists of encodings
- `scan_prefix`: a part of the stream yields a part of the values
- `scan_part`: a part of an encoding yields nothing
-/

namespace Exact

variable {α β ε : Type} {enc : α → Except ε (List β)} {dec : List β → Option (α × List β)}

/-- The values read from the front of a list, `n` at most. -/
def scanUpTo (dec : List β → Option (α × List β)) : Nat → List β → List α
  | 0, _ => []
  | n + 1, bs =>
    match dec bs with
    | none => []
    | some (a, rest) => a :: scanUpTo dec n rest

/-- The values read from the front of a list, until it does not go on with one. -/
def scan (dec : List β → Option (α × List β)) (bs : List β) : List α := scanUpTo dec bs.length bs

/-- The list consists of the encodings of the values. -/
inductive Framed (enc : α → Except ε (List β)) : List α → List β → Prop
  | nil : Framed enc [] []
  | cons {a : α} {as : List α} {p bs : List β} : enc a = .ok p → Framed enc as bs →
      Framed enc (a :: as) (p ++ bs)

theorem Framed.concat {as : List α} {bs : List β} (h : Framed enc as bs) {a : α} {p : List β}
    (ha : enc a = .ok p) : Framed enc (as ++ [a]) (bs ++ p) := by
  induction h with
  | nil =>
    have hone : Framed enc [a] (p ++ []) := .cons ha .nil
    simpa using hone
  | cons hb _ ih =>
    rw [List.append_assoc]
    exact .cons hb ih

section Reader

variable (hexact : Exact enc dec) (hne : ∀ a p, enc a = .ok p → p ≠ [])

include hexact hne

/-- Reading a value takes something off the list. -/
theorem length_lt {bs : List β} {a : α} {rest : List β} (h : dec bs = some (a, rest)) :
    rest.length < bs.length := by
  obtain ⟨p, hp, rfl⟩ := hexact.encode h
  have hpos := List.length_pos_iff.mpr (hne a p hp)
  rw [List.length_append]
  omega

/-- A bound beyond the length of the list makes no difference. -/
theorem scanUpTo_succ {n : Nat} {bs : List β} (h : bs.length ≤ n) :
    scanUpTo dec (n + 1) bs = scanUpTo dec n bs := by
  induction n generalizing bs with
  | zero =>
    cases hdec : dec bs with
    | none => simp [scanUpTo, hdec]
    | some r =>
      have hlt := hexact.length_lt hne hdec
      omega
  | succ n ih =>
    cases hdec : dec bs with
    | none => rw [scanUpTo, scanUpTo, hdec]
    | some r =>
      have hlt := hexact.length_lt hne hdec
      rw [scanUpTo, scanUpTo, hdec]
      exact congrArg (r.1 :: ·) (ih (by omega))

theorem scanUpTo_eq {n : Nat} {bs : List β} (h : bs.length ≤ n) :
    scanUpTo dec n bs = scan dec bs := by
  induction h with
  | refl => rfl
  | step h ih => rw [hexact.scanUpTo_succ hne h, ih]

theorem scan_of_some {bs : List β} {a : α} {rest : List β} (h : dec bs = some (a, rest)) :
    scan dec bs = a :: scan dec rest := by
  have hlt := hexact.length_lt hne h
  rw [← hexact.scanUpTo_eq hne (Nat.le_succ bs.length), scanUpTo, h]
  exact congrArg (a :: ·) (hexact.scanUpTo_eq hne (Nat.le_of_lt hlt))

theorem scan_of_none {bs : List β} (h : dec bs = none) : scan dec bs = [] := by
  rw [← hexact.scanUpTo_eq hne (Nat.le_succ bs.length), scanUpTo, h]

/-- Encoded values at the front of a list are read. -/
theorem scan_append {as : List α} {p : List β} (h : Framed enc as p) (rest : List β) :
    scan dec (p ++ rest) = as ++ scan dec rest := by
  induction h with
  | nil => rfl
  | @cons a as q bs ha _ ih =>
    have hdec : dec (q ++ bs ++ rest) = some (a, bs ++ rest) := by
      rw [List.append_assoc]
      exact hexact.decode ha (bs ++ rest)
    rw [hexact.scan_of_some hne hdec, ih, List.cons_append]

/-- What is read was encoded, and the list does not go on with a value. -/
theorem scan_framed (bs : List β) :
    ∃ p rest, bs = p ++ rest ∧ Framed enc (scan dec bs) p ∧ dec rest = none := by
  induction hn : bs.length using Nat.strongRecOn generalizing bs with
  | ind n ih =>
    cases hdec : dec bs with
    | none => exact ⟨[], bs, rfl, by rw [hexact.scan_of_none hne hdec]; exact .nil, hdec⟩
    | some r =>
      obtain ⟨a, rest⟩ := r
      have hlt := hexact.length_lt hne hdec
      obtain ⟨p, left, heq, hframed, hleft⟩ := ih rest.length (hn ▸ hlt) rest rfl
      obtain ⟨q, hq, rfl⟩ := hexact.encode hdec
      refine ⟨q ++ p, left, ?_, ?_, hleft⟩
      · rw [List.append_assoc, ← heq]
      · rw [hexact.scan_of_some hne hdec]
        exact .cons hq hframed

/-- No longer part of the list consists of encodings. -/
theorem prefix_scan {as : List α} {p bs : List β} (h : Framed enc as p) (hp : p <+: bs) :
    as <+: scan dec bs := by
  obtain ⟨rest, rfl⟩ := hp
  exact ⟨scan dec rest, (hexact.scan_append hne h rest).symm⟩

/-- A part of the list yields a part of the values. -/
theorem scan_prefix {bs bs' : List β} (h : bs <+: bs') : scan dec bs <+: scan dec bs' := by
  obtain ⟨p, rest, heq, hframed, -⟩ := hexact.scan_framed hne bs
  refine hexact.prefix_scan hne hframed (List.IsPrefix.trans ?_ h)
  exact ⟨rest, heq.symm⟩

/-- From a part of an encoding nothing is read. -/
theorem scan_part {a : α} {part left : List β} (ha : enc a = .ok (part ++ left))
    (hleft : left ≠ []) : scan dec part = [] := by
  apply hexact.scan_of_none hne
  cases hdec : dec part with
  | none => rfl
  | some r =>
    -- the whole encoding would then be read with `left` left over
    obtain ⟨p, hp, rfl⟩ := hexact.encode hdec
    have hwhole := hexact.decode ha []
    have hcut := hexact.decode hp (r.2 ++ left)
    rw [List.append_nil, List.append_assoc, hcut] at hwhole
    have hrest := (Prod.mk.inj (Option.some.inj hwhole)).2
    exact absurd (List.append_eq_nil_iff.mp hrest).2 hleft

end Reader

end Exact
