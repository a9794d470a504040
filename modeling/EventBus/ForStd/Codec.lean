import Mathlib.Algebra.Group.Nat.Defs
import Mathlib.Data.List.Induction

/-!
# Byte codecs

Big-endian numbers of a fixed width, and the law that ties a writer to a reader: the
reader accepts exactly what the writer produces, and leaves the rest of the input alone.

## Key results

- `BigEndian.get_put`, `BigEndian.put_get`: big-endian numbers round trip both ways
- `Exact.encode`, `Exact.decode`: using the law on either side
- `Except.bind_eq_ok_iff`, `Except.ite_error_eq_ok_iff`: when a writer succeeds
- `Codec.of_append`: what follows if a decoder inverts an encoder and checks that nothing is left
- `Codec.map`: a codec for messages with the same content
-/

namespace BigEndian

/-- The low `k` bytes of `n`, most significant byte first. -/
def put : Nat → Nat → List UInt8
  | 0, _ => []
  | k + 1, n => put k (n / 256) ++ [UInt8.ofNat n]

/-- The number that bytes stand for, most significant byte first. -/
def get (bs : List UInt8) : Nat := bs.foldl (fun n b => n * 256 + b.toNat) 0

@[simp] theorem put_length (k n : Nat) : (put k n).length = k := by
  induction k generalizing n with
  | zero => rfl
  | succ k ih => simp [put, ih]

theorem get_concat (bs : List UInt8) (b : UInt8) : get (bs ++ [b]) = get bs * 256 + b.toNat := by
  simp [get]

/-- A number that fits is read back. -/
theorem get_put (k n : Nat) (h : n < 256 ^ k) : get (put k n) = n := by
  induction k generalizing n with
  | zero =>
    rw [Nat.pow_zero] at h
    simp only [put, get, List.foldl_nil]
    omega
  | succ k ih =>
    have hdiv : n / 256 < 256 ^ k := by
      rw [Nat.pow_succ] at h
      exact Nat.div_lt_of_lt_mul (by omega)
    rw [put, get_concat, ih _ hdiv, UInt8.toNat_ofNat']
    omega

/-- Bytes are determined by their number and by how many they are. -/
theorem put_get (bs : List UInt8) : put bs.length (get bs) = bs := by
  induction bs using List.reverseRecOn with
  | nil => rfl
  | append_singleton bs b ih =>
    have hb := b.toNat_lt
    rw [List.length_append, List.length_singleton, put, get_concat]
    -- the last byte is the remainder, the others are the quotient
    have hdiv : (get bs * 256 + b.toNat) / 256 = get bs := by omega
    have hmod : UInt8.ofNat (get bs * 256 + b.toNat) = b := by
      apply UInt8.toNat_inj.mp
      rw [UInt8.toNat_ofNat']
      omega
    rw [hdiv, hmod, ih]

theorem get_lt (bs : List UInt8) : get bs < 256 ^ bs.length := by
  induction bs using List.reverseRecOn with
  | nil => simp [get]
  | append_singleton bs b ih =>
    have hb := b.toNat_lt
    rw [get_concat, List.length_append, List.length_singleton, Nat.pow_succ]
    omega

end BigEndian

/-- `dec` reads exactly what `enc` writes, and no more. -/
def Exact {α β ε : Type} (enc : α → Except ε (List β)) (dec : List β → Option (α × List β)) :
    Prop :=
  ∀ bs a rest, dec bs = some (a, rest) ↔ ∃ p, enc a = .ok p ∧ bs = p ++ rest

namespace Exact

variable {α β ε : Type} {enc : α → Except ε (List β)} {dec : List β → Option (α × List β)}

/-- What was read is what the writer writes. -/
theorem encode (h : Exact enc dec) {bs : List β} {a : α} {rest : List β}
    (hdec : dec bs = some (a, rest)) : ∃ p, enc a = .ok p ∧ bs = p ++ rest :=
  (h bs a rest).mp hdec

/-- What was written is read back, whatever follows. -/
theorem decode (h : Exact enc dec) {a : α} {p : List β} (henc : enc a = .ok p)
    (rest : List β) : dec (p ++ rest) = some (a, rest) :=
  (h (p ++ rest) a rest).mpr ⟨p, henc, rfl⟩

end Exact

namespace Except

variable {ε α β : Type}

/-- Two writers, one after the other. -/
theorem bind_eq_ok_iff {x : Except ε α} {f : α → Except ε β} {b : β} :
    x >>= f = .ok b ↔ ∃ a, x = .ok a ∧ f a = .ok b := by
  cases x with
  | error e => simp [bind, Except.bind]
  | ok a => simp [bind, Except.bind]

/-- A writer that checks a size against a limit. -/
theorem ite_error_eq_ok_iff {n limit : Nat} {e : ε} {a b : α} :
    (if n > limit then error e else ok a) = ok b ↔ n ≤ limit ∧ b = a := by
  split
  · rename_i hlarge
    exact ⟨fun h => (by cases h), fun h => by omega⟩
  · rename_i hsmall
    rw [Except.ok.injEq]
    exact ⟨fun h => ⟨by omega, h.symm⟩, fun h => h.2.symm⟩

end Except

/-- An encoder of messages `α` and its decoder are exact inverses. `fits` tells the messages that
    have an encoding. -/
structure Codec {α β ε : Type} (enc : α → Except ε (List β)) (dec : List β → Except ε α)
    (fits : α → Prop) : Prop where
  inverse : ∀ p m, dec p = .ok m ↔ enc m = .ok p
  injective : ∀ m m' p, enc m = .ok p → enc m' = .ok p → m = m'
  unique : ∀ p p' m, dec p = .ok m → dec p' = .ok m → p = p'
  noTrailing : ∀ p m rest, dec p = .ok m → rest ≠ [] → ∃ err, dec (p ++ rest) = .error err
  rejects : ∀ p, (∃ err, dec p = .error err) ↔ ∀ m, enc m ≠ .ok p
  fails : ∀ m, (∃ err, enc m = .error err) ↔ ¬fits m

theorem Codec.of_inverse {α β ε : Type} {enc : α → Except ε (List β)}
    {dec : List β → Except ε α} {fits : α → Prop} (inverse : ∀ p m, dec p = .ok m ↔ enc m = .ok p)
    (noTrailing : ∀ p m rest, dec p = .ok m → rest ≠ [] → ∃ err, dec (p ++ rest) = .error err)
    (hfits : ∀ m, (∃ p, enc m = .ok p) ↔ fits m) : Codec enc dec fits where
  inverse := inverse
  injective m m' p h h' := by
    have hdec := (inverse p m).mpr h
    rw [(inverse p m').mpr h'] at hdec
    exact (Except.ok.inj hdec).symm
  unique p p' m h h' := by
    have henc := (inverse p m).mp h
    rw [(inverse p' m).mp h'] at henc
    exact (Except.ok.inj henc).symm
  noTrailing := noTrailing
  rejects p := by
    cases hdec : dec p with
    | error err => simp [← inverse, hdec]
    | ok m => simp [← inverse, hdec]
  fails m := by
    rw [← hfits]
    cases henc : enc m with
    | error err => simp
    | ok p => simp

/-- A decoder that reads what the encoder writes and then checks that nothing is left. -/
theorem Codec.of_append {α β ε : Type} {enc : α → Except ε (List β)} {dec : List β → Except ε α}
    {fits : α → Prop} (err : ε) (sound : ∀ p m, dec p = .ok m → enc m = .ok p)
    (append : ∀ p m rest, enc m = .ok p →
      dec (p ++ rest) = if rest.length ≠ 0 then .error err else .ok m)
    (hfits : ∀ m, (∃ p, enc m = .ok p) ↔ fits m) : Codec enc dec fits := by
  refine .of_inverse (fun p m => ⟨sound p m, fun h => ?_⟩) (fun p m rest h hrest => ?_) hfits
  · have hdec := append p m [] h
    rwa [List.append_nil] at hdec
  · refine ⟨err, ?_⟩
    rw [append p m rest (sound p m h), if_pos (mt List.length_eq_zero_iff.mp hrest)]

theorem Codec.encodes_iff {α β ε : Type} {enc : α → Except ε (List β)}
    {dec : List β → Except ε α} {fits : α → Prop} (h : Codec enc dec fits) (m : α) :
    (∃ p, enc m = .ok p) ↔ fits m := by
  have hfails := h.fails m
  cases henc : enc m with
  | error err =>
    rw [henc] at hfails
    exact ⟨nofun, fun hfit => absurd hfit (hfails.mp ⟨err, rfl⟩)⟩
  | ok p =>
    rw [henc] at hfails
    exact ⟨fun _ => not_not.mp (mt hfails.mpr nofun), fun _ => ⟨p, rfl⟩⟩

/-- Messages `γ` with the content of messages `α` are encoded alike. -/
theorem Codec.map {α β γ ε : Type} {enc : α → Except ε (List β)} {dec : List β → Except ε α}
    {fits : α → Prop} (h : Codec enc dec fits) (f : α → γ) (g : γ → α) (hfg : ∀ c, f (g c) = c)
    (hgf : ∀ a, g (f a) = a) :
    Codec (fun c => enc (g c)) (fun p => (dec p).map f) fun c => fits (g c) := by
  refine .of_inverse (fun p c => ?_) (fun p c rest hp hrest => ?_) fun c => h.encodes_iff (g c)
  · rw [← h.inverse]
    cases dec p with
    | error err => simp [Except.map]
    | ok a =>
      simp only [Except.map, Except.ok.injEq]
      exact ⟨fun heq => by rw [← heq, hgf], fun heq => by rw [heq, hfg]⟩
  · cases hdec : dec p with
    | error err => simp [hdec, Except.map] at hp
    | ok a =>
      obtain ⟨err, heq⟩ := h.noTrailing p a rest hdec hrest
      exact ⟨err, by simp [heq, Except.map]⟩
