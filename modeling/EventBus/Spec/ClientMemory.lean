import EventBus.Spec.ClientDelivery

/-!
# The memory of acknowledged IDs

`c.acked` and `c.ackedIDs` are one memory of at most `maxRememberedDeliveries` IDs. A call
`rememberDelivery(id)` inserts `id` unless it is remembered, and an insertion into a full
memory forgets the ID inserted first. So the memory holds the IDs inserted last, and an ID
is forgotten by the insertion that is the `maxRememberedDeliveries`-th after its own, however
often it has been acknowledged in between.

## Key results

- `AckWindow.rememberAll`: the memory after any sequence of calls
- `memory_of_run`: the memory of a running client is that of the calls it has made
- `acked_ids_window`: what is remembered, and for how long
-/

namespace EventBus

/-- The client after a call `rememberDelivery(id)` for each of the IDs. -/
def Client.rememberAll (c : Client) (ids : List Bytes) : Client := ids.foldl rememberDelivery c

/-- The IDs that these calls insert: those that are not remembered when their call is made. -/
def Client.insertions (c : Client) : List Bytes → List Bytes
  | [] => []
  | id :: ids =>
    if c.wasDelivered id then (c.rememberDelivery id).insertions ids
    else id :: (c.rememberDelivery id).insertions ids

section Sequence

variable {c : Client} {id : Bytes} {ids ids' : List Bytes}

@[simp] theorem Client.rememberAll_nil (c : Client) : c.rememberAll [] = c := rfl

@[simp] theorem Client.rememberAll_cons (c : Client) (id : Bytes) (ids : List Bytes) :
    c.rememberAll (id :: ids) = (c.rememberDelivery id).rememberAll ids := rfl

theorem Client.rememberAll_append (c : Client) (ids ids' : List Bytes) :
    c.rememberAll (ids ++ ids') = (c.rememberAll ids).rememberAll ids' :=
  List.foldl_append

theorem Client.insertions_append (c : Client) (ids ids' : List Bytes) :
    c.insertions (ids ++ ids') = c.insertions ids ++ (c.rememberAll ids).insertions ids' := by
  induction ids generalizing c with
  | nil => rfl
  | cons id ids ih =>
    rw [List.cons_append, insertions, insertions, ih]
    split
    · rfl
    · rfl

/-- One call inserts its ID, unless the ID is remembered. -/
theorem Client.insertions_singleton (c : Client) (id : Bytes) :
    c.insertions [id] = if c.wasDelivered id then [] else [id] := rfl

/-- The memory after a sequence of calls is the window of all insertions. -/
theorem Client.AckWindow.rememberAll (h : c.AckWindow ids) (ids' : List Bytes) :
    (c.rememberAll ids').AckWindow (ids ++ c.insertions ids') := by
  induction ids' generalizing c ids with
  | nil => simpa [Client.insertions] using h
  | cons id ids' ih =>
    rw [Client.insertions]
    cases hdel : c.wasDelivered id with
    | true =>
      have := ih (c := c.rememberDelivery id) (by rwa [rememberDelivery_of_delivered hdel])
      simpa using this
    | false =>
      have := ih (h.remember hdel)
      simpa using this

/-- An ID is remembered while fewer than `maxRememberedDeliveries` insertions have followed
    its own. -/
theorem Client.AckWindow.remembered (h : c.AckWindow (ids ++ id :: ids'))
    (hfew : ids'.length < maxRememberedDeliveries) : c.wasDelivered id = true := by
  rw [h.keys, h.window]
  exact List.mem_rtake_of_lt hfew

/-- The ID inserted last is not inserted again by the next `maxRememberedDeliveries`
    insertions. -/
theorem Client.AckWindow.not_reinserted (h : c.AckWindow (ids ++ [id])) (post : List Bytes)
    (hle : (c.insertions post).length ≤ maxRememberedDeliveries) : id ∉ c.insertions post := by
  -- from the right: only the last of the calls may insert the ID, and then it is remembered
  induction post using List.reverseRecOn with
  | nil => exact List.not_mem_nil
  | append_singleton post id' ih =>
    rw [Client.insertions_append, Client.insertions_singleton] at hle ⊢
    split at hle
    · rename_i hdel
      rw [if_pos hdel, List.append_nil]
      exact ih (by simpa using hle)
    · rename_i hnew
      rw [List.length_append, List.length_singleton] at hle
      rw [if_neg hnew, List.mem_append, List.mem_singleton, not_or]
      refine ⟨ih (by omega), ?_⟩
      rintro rfl
      have hwin := h.rememberAll post
      rw [List.append_assoc, List.singleton_append] at hwin
      exact hnew (hwin.remembered (by omega))

/-- An ID is forgotten when `maxRememberedDeliveries` insertions have followed its own. -/
theorem Client.AckWindow.forgotten (h : c.AckWindow (ids ++ [id])) (post : List Bytes)
    (heq : (c.insertions post).length = maxRememberedDeliveries) :
    (c.rememberAll post).wasDelivered id = false := by
  have hwin := h.rememberAll post
  have hids : (c.rememberAll post).ackedIDs = c.insertions post :=
    hwin.window.trans (List.rtake_append_of_length_eq heq)
  rw [← Bool.not_eq_true, hwin.keys, hids]
  exact h.not_reinserted post heq.le

end Sequence

/-! ## Runs of a client -/

/-- What `rememberDelivery` makes of the memory depends on the memory only. -/
theorem rememberDelivery_congr {c c' : Client} (hacked : c'.acked = c.acked)
    (hids : c'.ackedIDs = c.ackedIDs) (id : Bytes) :
    (c'.rememberDelivery id).acked = (c.rememberDelivery id).acked ∧
      (c'.rememberDelivery id).ackedIDs = (c.rememberDelivery id).ackedIDs := by
  have hdel : c'.wasDelivered id = c.wasDelivered id := by
    rw [Client.wasDelivered, Client.wasDelivered, hacked]
  simp only [Client.rememberDelivery, hdel, hacked, hids]
  split
  · exact ⟨hacked, hids⟩
  · split
    · split
      · exact ⟨rfl, rfl⟩
      · exact ⟨rfl, rfl⟩
    · exact ⟨hacked, hids⟩

/-- In every interleaving of a client's goroutines, the memory is that of the sequence of the
    `rememberDelivery` calls made, in the order of their `ackedMu` sections. -/
theorem memory_of_run {G : Client → ClientAction → Prop} {log : List (ClientObs ⊕ Bytes)}
    {c : Client} (h : (Client.lts.observe fun c a => (c.remembers a).toList).Reach G log c) :
    c.acked = (newClient.rememberAll (Lts.extra log)).acked ∧
      c.ackedIDs = (newClient.rememberAll (Lts.extra log)).ackedIDs := by
  refine h.invariant (P := fun log c =>
    c.acked = (newClient.rememberAll (Lts.extra log)).acked ∧
      c.ackedIDs = (newClient.rememberAll (Lts.extra log)).ackedIDs) ?_ ?_
  · rintro _ rfl
    exact ⟨rfl, rfl⟩
  · rintro log c a c' os ⟨hacked, hids⟩ - hstep
    obtain ⟨hstep, hextra⟩ := Lts.observe_step hstep
    rw [Lts.extra_append, hextra, Client.rememberAll_append]
    rcases (client_step_effect hstep).remembers with ⟨hnone, hacked', hids'⟩ |
      ⟨id, hid, hacked', hids'⟩
    · rw [hnone]
      exact ⟨hacked'.trans hacked, hids'.trans hids⟩
    · rw [hid]
      obtain ⟨h₁, h₂⟩ := rememberDelivery_congr hacked hids id
      exact ⟨hacked'.trans h₁, hids'.trans h₂⟩

/-! ## The window -/

/-- After any sequence of `rememberDelivery` calls on a new client, `c.ackedIDs` has no
    repetitions and at most `maxRememberedDeliveries` elements, `c.acked` has the same elements,
    and they are the IDs inserted last. An ID that a call inserts is remembered until exactly
    `maxRememberedDeliveries` further insertions have been made. -/
theorem acked_ids_window (ids : List Bytes) :
    (newClient.rememberAll ids).ackedIDs.Nodup ∧
    (newClient.rememberAll ids).ackedIDs.length ≤ maxRememberedDeliveries ∧
    (∀ id, id ∈ (newClient.rememberAll ids).acked ↔ id ∈ (newClient.rememberAll ids).ackedIDs) ∧
    (newClient.rememberAll ids).ackedIDs = (newClient.insertions ids).rtake
      (min (newClient.insertions ids).length maxRememberedDeliveries) ∧
    ∀ pre id post, ids = pre ++ id :: post → (newClient.rememberAll pre).wasDelivered id = false →
      (((newClient.rememberAll (pre ++ [id])).insertions post).length < maxRememberedDeliveries →
        (newClient.rememberAll ids).wasDelivered id = true) ∧
      (((newClient.rememberAll (pre ++ [id])).insertions post).length = maxRememberedDeliveries →
        (newClient.rememberAll ids).wasDelivered id = false) := by
  have hwin := ackWindow_newClient.rememberAll ids
  rw [List.nil_append] at hwin
  refine ⟨hwin.nodup, ?_, fun id => ?_, ?_, ?_⟩
  · rw [hwin.window, List.length_rtake]
    exact Nat.min_le_left _ _
  · rw [← wasDelivered_iff, hwin.keys]
  · rw [hwin.window, List.rtake_min_length]
  · rintro pre id post rfl hnew
    -- the window when the call has inserted the ID
    have hins : (newClient.rememberAll (pre ++ [id])).AckWindow
        (newClient.insertions pre ++ [id]) := by
      have := ackWindow_newClient.rememberAll (pre ++ [id])
      rwa [Client.insertions_append, Client.insertions_singleton, hnew, List.nil_append] at this
    have hsplit : newClient.rememberAll (pre ++ id :: post) =
        (newClient.rememberAll (pre ++ [id])).rememberAll post := by
      rw [List.append_cons, Client.rememberAll_append]
    rw [hsplit]
    refine ⟨fun hfew => ?_, hins.forgotten post⟩
    have hall := hins.rememberAll post
    rw [List.append_assoc, List.singleton_append] at hall
    exact hall.remembered hfew

end EventBus
