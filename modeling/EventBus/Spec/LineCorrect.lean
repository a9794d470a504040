import EventBus.Native.Line
import EventBus.Spec.WireStep

/-!
# Sending is atomic

The lock `c.write` and the loops of `writeFull` make a call of `send` look like one step. Whatever
goroutines send at the same time and however the socket cuts what it is given, the stream is
made of whole frames, in the order in which the lock was taken, and at most one part of a frame
at its end. So the peer reads the frames of the calls that returned no error, in that order.

This needs a socket that takes nothing more once a `Write` has failed: `send` neither closes the
connection nor remembers the error, and the next call would go on behind a part of a frame.

## Key results

- `line_step_effect`: what a step of a call of `send` can do
- `line_inv`: whole frames, and at most one part of a frame
- `send_atomic`: what a peer reads from the stream
-/

namespace EventBus

variable {a : LineAction} {pc pc' : SendPc} {n : Nat} {s t : SendId} {l l₁ : Line}
  {os log own : List LineObs} {left part : Bytes} {err : Option WriteErr} {place : Option SendPc}
  {G : Line → LineAction → Prop}

/-! ## What a step can do -/

/-- The number of bytes that the socket takes in a step. -/
def LineAction.takes : LineAction → Nat
  | .write _ n | .writeFails _ n _ => n
  | _ => 0

/-- `LineMove l s a pc pc' l₁ os`: with action `a`, call `s` moves from `pc` to `pc'`; apart from
    the new program counter the line becomes `l₁`. -/
inductive LineMove (l : Line) (s : SendId) :
    LineAction → SendPc → SendPc → Line → List LineObs → Prop
  | refused {frame : Frame} : l.done = true →
      LineMove l s (.select s) (.select frame) (.returned (some .clientClosed)) l
        [.returned s (some .clientClosed)]
  | admitted {frame : Frame} : l.done = false →
      LineMove l s (.select s) (.select frame) (.lock frame) l []
  | lock {frame : Frame} : l.holder = none →
      LineMove l s (.lock s) (.lock frame) (.check frame) { l with holder := some s } []
  | rejected {frame : Frame} {err : FrameErr} : writeFrame frame = .error err →
      LineMove l s (.check s) (.check frame) (.unlock (some (.frame err))) l
        [.finished s frame frame.bytes (some (.frame err))]
  | accepted {frame : Frame} : writeFrame frame = .ok frame.bytes →
      LineMove l s (.check s) (.check frame) (.writing frame frame.header (some frame.payload)) l []
  | write {frame : Frame} {left : Bytes} {next : Option Bytes} {n : Nat} : 0 < n →
      n ≤ left.length →
      LineMove l s (.write s n) (.writing frame left next) (.writing frame (left.drop n) next)
        { l with sent := l.sent ++ left.take n } []
  | fails {a : LineAction} {frame : Frame} {left : Bytes} {next : Option Bytes} {err : WriteErr} :
      left ≠ [] → a.takes ≤ left.length →
      LineMove l s a (.writing frame left next) (.unlock (some err))
        { l with sent := l.sent ++ left.take a.takes, failed := true }
        [.finished s frame (left.drop a.takes ++ next.getD []) (some err)]
  | payload {frame : Frame} {payload : Bytes} :
      LineMove l s (.writeDone s) (.writing frame [] (some payload)) (.writing frame payload none) l
        []
  | complete {frame : Frame} :
      LineMove l s (.writeDone s) (.writing frame [] none) (.unlock none) l
        [.finished s frame [] none]
  | unlock {err : Option WriteErr} :
      LineMove l s (.unlock s) (.unlock err) (.returned (err.map .write)) { l with holder := none }
        [.returned s (err.map .write)]

/-- Every change a step can make. -/
inductive LineEffect (l : Line) : LineAction → Line → List LineObs → Prop
  | called {a : LineAction} {s : SendId} {frame : Frame} {pc : SendPc} : l.sends s = none →
      pc = .lock frame ∨ pc = .select frame → a.takes = 0 →
      LineEffect l a (l.setPc s pc) [.called s frame]
  | move {a : LineAction} {s : SendId} {pc pc' : SendPc} {l₁ : Line} {os : List LineObs} :
      l.sends s = some pc → LineMove l s a pc pc' l₁ os → LineEffect l a (l₁.setPc s pc') os
  | closeDone : LineEffect l .closeDone { l with done := true } []

section Inversion

variable {l' : Line}

private theorem call_effect {frame : Frame} (hpc : pc = .lock frame ∨ pc = .select frame)
    (ha : a.takes = 0) (h : l.call s frame pc = some (l', os)) : LineEffect l a l' os := by
  simp only [Line.call] at h
  split at h
  · rename_i hnone
    cases h
    exact .called hnone hpc ha
  · cases h

private theorem select_effect (h : l.select s = some (l', os)) :
    LineEffect l (.select s) l' os := by
  simp only [Line.select] at h
  split at h
  · rename_i frame hpc
    split at h <;> rename_i hdone <;> cases h
    · exact .move hpc (.refused hdone)
    · exact .move hpc (.admitted (by simpa using hdone))
  · cases h

private theorem lock_effect (h : l.lock s = some (l', os)) : LineEffect l (.lock s) l' os := by
  simp only [Line.lock] at h
  split at h
  · rename_i frame hpc
    split at h
    · rename_i hfree
      cases h
      exact .move hpc (.lock hfree)
    · cases h
  · cases h

private theorem check_effect (h : l.check s = some (l', os)) : LineEffect l (.check s) l' os := by
  simp only [Line.check] at h
  split at h
  · rename_i frame hpc
    split at h <;> rename_i hwrite <;> cases h
    · exact .move hpc (.rejected hwrite)
    · obtain ⟨-, -, rfl⟩ := (writeFrame_ok_iff _ _).mp hwrite
      exact .move hpc (.accepted hwrite)
  · cases h

private theorem write_effect (h : l.write s n = some (l', os)) :
    LineEffect l (.write s n) l' os := by
  simp only [Line.write] at h
  split at h
  · rename_i frame left next hpc
    split at h
    · rename_i hn
      cases h
      exact .move hpc (.write hn.1 hn.2)
    · cases h
  · cases h

private theorem writeNothing_effect (h : l.writeNothing s = some (l', os)) :
    LineEffect l (.writeNothing s) l' os := by
  simp only [Line.writeNothing] at h
  split at h
  · rename_i frame left next hpc
    split at h
    · cases h
    · rename_i hne
      cases h
      have hmove : LineMove l s (.writeNothing s) (.writing frame left next)
          (.unlock (some .shortWrite)) _ _ := .fails hne (Nat.zero_le _)
      simpa [LineAction.takes] using LineEffect.move hpc hmove
  · cases h

private theorem writeFails_effect {text : Bytes} (h : l.writeFails s n text = some (l', os)) :
    LineEffect l (.writeFails s n text) l' os := by
  simp only [Line.writeFails] at h
  split at h
  · rename_i frame left next hpc
    split at h
    · rename_i hn
      cases h
      exact .move hpc (.fails (a := .writeFails s n text) hn.1 hn.2)
    · cases h
  · cases h

private theorem writeDone_effect (h : l.writeDone s = some (l', os)) :
    LineEffect l (.writeDone s) l' os := by
  simp only [Line.writeDone] at h
  split at h
  · rename_i hpc
    cases h
    exact .move hpc .payload
  · rename_i hpc
    cases h
    exact .move hpc .complete
  · cases h

private theorem unlock_effect (h : l.unlock s = some (l', os)) :
    LineEffect l (.unlock s) l' os := by
  simp only [Line.unlock] at h
  split at h
  · rename_i hpc
    cases h
    exact .move hpc .unlock
  · cases h

/-- What a step of a call of `send` can do. -/
theorem line_step_effect (h : l.step a = some (l', os)) :
    LineEffect l a l' os := by
  cases a with
  | connectionSend s frame => exact call_effect (.inl rfl) rfl h
  | clientSend s frame => exact call_effect (.inr rfl) rfl h
  | select s => exact select_effect h
  | lock s => exact lock_effect h
  | check s => exact check_effect h
  | write s n => exact write_effect h
  | writeNothing s => exact writeNothing_effect h
  | writeFails s n text => exact writeFails_effect h
  | writeDone s => exact writeDone_effect h
  | unlock s => exact unlock_effect h
  | closeDone =>
    cases h
    exact .closeDone

end Inversion

/-! ## The calls of a run -/

@[simp] theorem Line.setPc_self (l : Line) (s : SendId) (pc : SendPc) :
    (l.setPc s pc).sends s = some pc := by
  simp [Line.setPc]

theorem Line.setPc_ne (l : Line) (pc : SendPc) (h : t ≠ s) :
    (l.setPc s pc).sends t = l.sends t := by
  simp [Line.setPc, h]

theorem LineMove.sends_eq (h : LineMove l s a pc pc' l₁ os) : l₁.sends = l.sends := by
  cases h <;> rfl

/-- The call holds the lock. -/
def SendPc.locked : SendPc → Bool
  | .check _ | .writing .. | .unlock _ => true
  | _ => false

/-- The frame that a call has still to send, or is sending. -/
def SendPc.frame : SendPc → Option Frame
  | .select frame | .lock frame | .check frame | .writing frame _ _ => some frame
  | _ => none

/-- The calls whose frame has been taken whole, and the frames. -/
def completions (log : List LineObs) : List (SendId × Frame) :=
  log.filterMap fun
    | .finished s frame _ none => some (s, frame)
    | _ => none

@[simp] theorem completions_append (log log' : List LineObs) :
    completions (log ++ log') = completions log ++ completions log' := List.filterMap_append

theorem mem_completions {frame : Frame} :
    (s, frame) ∈ completions log ↔ ∃ left, .finished s frame left none ∈ log := by
  simp only [completions, List.mem_filterMap]
  constructor
  · rintro ⟨o, ho, heq⟩
    split at heq
    · rename_i t f left
      cases heq
      exact ⟨left, ho⟩
    · cases heq
  · rintro ⟨left, ho⟩
    exact ⟨_, ho, rfl⟩

section Calls

variable {l' : Line}

/-- The call that an observation is about. -/
def LineObs.call : LineObs → SendId
  | .called s _ | .finished s _ _ _ | .returned s _ => s

/-- The four kinds of moves: on with the frame, the end of `WriteFrame`, the end of `send`, and
    a client that is closed. -/
inductive LineMove.Kind (s : SendId) : SendPc → SendPc → List LineObs → Prop
  | goes {pc pc' : SendPc} {frame : Frame} : pc.frame = some frame → pc'.frame = some frame →
      Kind s pc pc' []
  | finishes {pc : SendPc} {frame : Frame} {left : Bytes} {err : Option WriteErr} :
      pc.frame = some frame → Kind s pc (.unlock err) [.finished s frame left err]
  | returns {err : Option WriteErr} :
      Kind s (.unlock err) (.returned (err.map .write)) [.returned s (err.map .write)]
  | refused {frame : Frame} :
      Kind s (.select frame) (.returned (some .clientClosed)) [.returned s (some .clientClosed)]

/-- Every move of a call is of one of these kinds. -/
theorem LineMove.kind (h : LineMove l s a pc pc' l₁ os) : LineMove.Kind s pc pc' os := by
  cases h with
  | refused => exact .refused
  | admitted | lock | accepted | write | payload => exact .goes rfl rfl
  | rejected | fails | complete => exact .finishes rfl
  | unlock => exact .returns

/-- A step, seen from call `t`: it makes none, or it is called, or it moves. -/
theorem LineEffect.cases_call (h : LineEffect l a l' os) (t : SendId) :
    (l'.sends t = l.sends t ∧ ∀ o ∈ os, o.call ≠ t) ∨
    (∃ frame pc, l.sends t = none ∧ l'.sends t = some pc ∧ pc.frame = some frame ∧
      os = [.called t frame]) ∨
    ∃ pc pc' l₁, l.sends t = some pc ∧ LineMove l t a pc pc' l₁ os ∧ l' = l₁.setPc t pc' := by
  cases h with
  | @called _ s frame pc hnone hpc =>
    by_cases ht : t = s
    · subst ht
      refine .inr (.inl ⟨frame, pc, hnone, Line.setPc_self _ _ _, ?_, rfl⟩)
      rcases hpc with rfl | rfl <;> rfl
    · refine .inl ⟨Line.setPc_ne _ _ ht, ?_⟩
      simp [LineObs.call, Ne.symm ht]
  | @move _ s pc pc' l₁ _ hpc hm =>
    by_cases ht : t = s
    · subst ht
      exact .inr (.inr ⟨pc, pc', l₁, hpc, hm, rfl⟩)
    · refine .inl ⟨by rw [Line.setPc_ne _ _ ht, hm.sends_eq], ?_⟩
      have hne := Ne.symm ht
      cases hm.kind <;> simp [LineObs.call, hne]
  | closeDone => exact .inl ⟨rfl, by simp⟩

/-- What the log of a call holds, for each place where the call can be. -/
inductive CallLog (s : SendId) : List LineObs → Option SendPc → Prop
  | fresh : CallLog s [] none
  | sending {pc : SendPc} {frame : Frame} : pc.frame = some frame →
      CallLog s [.called s frame] (some pc)
  | finished {frame : Frame} {left : Bytes} {err : Option WriteErr} :
      CallLog s [.called s frame, .finished s frame left err] (some (.unlock err))
  | returned {frame : Frame} {left : Bytes} {err : Option WriteErr} :
      CallLog s [.called s frame, .finished s frame left err, .returned s (err.map .write)]
        (some (.returned (err.map .write)))
  | refused {frame : Frame} :
      CallLog s [.called s frame, .returned s (some .clientClosed)]
        (some (.returned (some .clientClosed)))

/-- What the log says about call `s`. -/
def callLog (s : SendId) (log : List LineObs) : List LineObs := log.filter (·.call = s)

@[simp] theorem called_mem_callLog {frame : Frame} :
    .called s frame ∈ callLog s log ↔ .called s frame ∈ log := by
  simp [callLog, LineObs.call]

@[simp] theorem finished_mem_callLog {frame : Frame} :
    .finished s frame left err ∈ callLog s log ↔ .finished s frame left err ∈ log := by
  simp [callLog, LineObs.call]

@[simp] theorem returned_mem_callLog {r : Option SendErr} :
    .returned s r ∈ callLog s log ↔ .returned s r ∈ log := by
  simp [callLog, LineObs.call]

/-- A call that has its frame still to send has been called with it, and that is all. -/
private theorem CallLog.of_frame {frame : Frame} (h : CallLog s own (some pc))
    (hf : pc.frame = some frame) : own = [.called s frame] := by
  cases h with
  | sending hf₂ => rw [Option.some.inj (hf.symm.trans hf₂)]
  | _ => cases hf

/-- A call that has finished has been called with the frame, and returns what it finished with. -/
private theorem CallLog.of_finished {frame : Frame} (h : CallLog s own place)
    (ho : .finished s frame left err ∈ own) :
    .called s frame ∈ own ∧ ∀ r, .returned s r ∈ own → r = err.map .write := by
  cases h <;> simp_all

/-- A call that has returned no error has finished without one. -/
private theorem CallLog.of_returned (h : CallLog s own place) (ho : .returned s none ∈ own) :
    ∃ frame left, .called s frame ∈ own ∧ .finished s frame left none ∈ own := by
  cases h with
  | fresh | sending | finished | refused => simp at ho
  | @returned frame left err =>
    have herr : err = none := by simpa using ho
    exact ⟨frame, left, by simp [herr]⟩

private theorem LineMove.Kind.callLog {olog : List LineObs} (hk : LineMove.Kind s pc pc' os)
    (h : CallLog s olog (some pc)) : CallLog s (olog ++ os) (some pc') := by
  cases hk with
  | goes hf hf' =>
    cases h with
    | sending hf₂ =>
      rw [hf] at hf₂
      rw [List.append_nil]
      exact .sending (hf'.trans hf₂)
    | _ => cases hf
  | finishes hf =>
    cases h with
    | sending hf₂ =>
      obtain rfl := Option.some.inj (hf.symm.trans hf₂)
      exact .finished
    | _ => cases hf
  | returns =>
    cases h with
    | sending hf => cases hf
    | finished => exact .returned
  | refused =>
    cases h with
    | sending hf => exact .refused

/-- The log of every call is that of the place where it is. -/
theorem call_inv (h : Line.lts.Reach G log l) (s : SendId) :
    CallLog s (callLog s log) (l.sends s) := by
  refine h.invariant (P := fun log l => CallLog s (callLog s log) (l.sends s)) ?_ ?_
  · rintro _ rfl
    exact .fresh
  intro log l a l' os ih _ hstep
  have hsplit : callLog s (log ++ os) = callLog s log ++ callLog s os := List.filter_append ..
  rcases (line_step_effect hstep).cases_call s with
    ⟨hsame, hnone⟩ | ⟨frame, pc, hfresh, hpc, hf, rfl⟩ | ⟨pc, pc', l₁, hpc, hm, rfl⟩
  · have hos : callLog s os = [] := by simpa [callLog, List.filter_eq_nil_iff] using hnone
    rw [hsplit, hos, List.append_nil, hsame]
    exact ih
  · rw [hfresh] at ih
    cases hlog : callLog s log with
    | nil =>
      rw [hsplit, hlog, hpc]
      simpa [callLog, LineObs.call] using CallLog.sending hf
    | cons =>
      rw [hlog] at ih
      cases ih
  · have hos : callLog s os = os := by
      cases hm.kind <;> simp [callLog, LineObs.call]
    rw [hsplit, hos, Line.setPc_self]
    exact hm.kind.callLog (hpc ▸ ih)

/-- A call that is on its way to its write has been made, and has ended nothing. -/
theorem sending_log {frame : Frame} (h : Line.lts.Reach G log l) (hpc : l.sends s = some pc)
    (hf : pc.frame = some frame) :
    .called s frame ∈ log ∧ (∀ f left err, .finished s f left err ∉ log) ∧
      ∀ r, .returned s r ∉ log := by
  have hown := (hpc ▸ call_inv h s).of_frame hf
  refine ⟨?_, fun f left err ho => ?_, fun r ho => ?_⟩
  · rw [← called_mem_callLog, hown, List.mem_singleton]
  · rw [← finished_mem_callLog, hown, List.mem_singleton] at ho
    cases ho
  · rw [← returned_mem_callLog, hown, List.mem_singleton] at ho
    cases ho

/-- A write that has ended belongs to a call, which returns its error. -/
theorem finished_log {frame : Frame} (h : Line.lts.Reach G log l)
    (ho : .finished s frame left err ∈ log) :
    .called s frame ∈ log ∧ ∀ r, .returned s r ∈ log → r = err.map .write := by
  simpa using (call_inv h s).of_finished (finished_mem_callLog.mpr ho)

/-- A call returns nil only after its write. -/
theorem returned_log (h : Line.lts.Reach G log l) (ho : .returned s none ∈ log) :
    ∃ frame left, .called s frame ∈ log ∧ .finished s frame left none ∈ log := by
  simpa using (call_inv h s).of_returned (returned_mem_callLog.mpr ho)

end Calls

/-! ## The lock -/

section Lock

variable {l' : Line}

/-- A move takes the lock, gives it back, or has nothing to do with it. -/
private theorem LineMove.holder (h : LineMove l s a pc pc' l₁ os) :
    (l₁.holder = l.holder ∧ pc'.locked = pc.locked) ∨
    (l.holder = none ∧ l₁.holder = some s ∧ pc'.locked = true) ∨
    (l₁.holder = none ∧ pc.locked = true ∧ pc'.locked = false) := by
  cases h with
  | lock hfree => exact .inr (.inl ⟨hfree, rfl, rfl⟩)
  | unlock => exact .inr (.inr ⟨rfl, rfl, rfl⟩)
  | _ => exact .inl ⟨rfl, rfl⟩

/-- The lock is held by the call that is between `Lock` and `Unlock`. -/
theorem lock_inv (h : Line.lts.Reach G log l) (s : SendId) :
    l.holder = some s ↔ ∃ pc, l.sends s = some pc ∧ pc.locked = true := by
  refine h.invariant (P := fun _ l => ∀ s, l.holder = some s ↔
    ∃ pc, l.sends s = some pc ∧ pc.locked = true) ?_ ?_ s
  · rintro _ rfl s
    simp [newLine]
  intro log l a l' os ih _ hstep t
  cases line_step_effect hstep with
  | @called _ s frame pc hnone hpc =>
    by_cases ht : t = s
    · subst ht
      have hlocked : pc.locked = false := by rcases hpc with rfl | rfl <;> rfl
      have hfree : l.holder ≠ some t := by simp [ih, hnone]
      exact iff_of_false hfree (by simp [hlocked])
    · rw [Line.setPc_ne _ _ ht]
      exact ih t
  | closeDone => exact ih t
  | @move _ s pc pc' l₁ _ hpc hm =>
    have hs : l.holder = some s ↔ pc.locked = true := by simp [ih, hpc]
    by_cases ht : t = s
    · subst ht
      show l₁.holder = some t ↔ _
      rw [Line.setPc_self]
      rcases hm.holder with ⟨hh, hl⟩ | ⟨-, hh, hl⟩ | ⟨hh, -, hl⟩
      · simpa [hh, hl] using hs
      · simp [hh, hl]
      · simp [hh, hl]
    · show l₁.holder = some t ↔ _
      rw [Line.setPc_ne _ _ ht, hm.sends_eq, ← ih t]
      rcases hm.holder with ⟨hh, -⟩ | ⟨hfree, hh, -⟩ | ⟨hh, hl, -⟩
      · rw [hh]
      · simp [hh, hfree, Ne.symm ht]
      · simp [hh, hs.mpr hl, Ne.symm ht]

/-- No two calls are between `Lock` and `Unlock`. -/
theorem locked_unique (h : Line.lts.Reach G log l) (hs : l.sends s = some pc)
    (hl : pc.locked = true) (ht : l.sends t = some pc') (hl' : pc'.locked = true) : s = t :=
  Option.some.inj (((lock_inv h s).mpr ⟨pc, hs, hl⟩).symm.trans ((lock_inv h t).mpr ⟨pc', ht, hl'⟩))

end Lock

/-! ## The stream -/

/-- Once a `Write` has failed, the socket takes nothing more. -/
def Line.Reliable (l : Line) (a : LineAction) : Prop := l.failed = true → a.takes = 0

instance (l : Line) (a : LineAction) : Decidable (l.Reliable a) :=
  inferInstanceAs (Decidable (l.failed = true → a.takes = 0))

/-- The part of a frame at the end of the stream: nothing, what the call that is writing has
    written, or what the call that failed had written. -/
inductive Line.Tail (log : List LineObs) (l : Line) : Bytes → Prop
  | idle : l.failed = false → (∀ s frame left next, l.sends s ≠ some (.writing frame left next)) →
      Tail log l []
  | writing {s : SendId} {frame : Frame} {part left : Bytes} {next : Option Bytes} :
      l.failed = false → l.sends s = some (.writing frame left next) →
      writeFrame frame = .ok (part ++ (left ++ next.getD [])) → Tail log l part
  | broken {s : SendId} {frame : Frame} {part left : Bytes} {err : WriteErr} :
      l.failed = true →
      (∀ t f left next, l.sends t = some (.writing f left next) →
        writeFrame f = .ok (left ++ next.getD [])) →
      .finished s frame left (some err) ∈ log → writeFrame frame = .ok (part ++ left) →
      Tail log l part

/-- Whole frames, and at most one part of a frame. -/
def Line.StreamInv (log : List LineObs) (l : Line) : Prop :=
  ∃ p part, l.sent = p ++ part ∧
    Exact.Framed writeFrame ((completions log).map Prod.snd) p ∧ l.Tail log part

section Stream

variable {l' : Line}

/-- The end of the stream is the same if no call starts, goes on with or stops writing. -/
private theorem Line.Tail.congr (h : l.Tail log part) (hfailed : l'.failed = l.failed)
    (hsends : ∀ s frame left next, l'.sends s = some (.writing frame left next) ↔
      l.sends s = some (.writing frame left next)) : l'.Tail (log ++ os) part := by
  cases h with
  | idle hf hnone => exact .idle (hfailed.trans hf) (by simpa [hsends] using hnone)
  | writing hf hs hw => exact .writing (hfailed.trans hf) ((hsends ..).mpr hs) hw
  | broken hf hnone hfin hw =>
    refine .broken (hfailed.trans hf) (fun t f left next ht => ?_) (List.mem_append_left _ hfin) hw
    exact hnone t f left next ((hsends ..).mp ht)

/-- So is it under a move outside of `writeFull`. -/
private theorem Line.Tail.quiet (h : l.Tail log part) (hpc : l.sends s = some pc)
    (hfailed : l₁.failed = l.failed) (hsends : l₁.sends = l.sends)
    (hpc₀ : ∀ frame left next, pc ≠ .writing frame left next)
    (hpc₁ : ∀ frame left next, pc' ≠ .writing frame left next) :
    (l₁.setPc s pc').Tail (log ++ os) part := by
  refine h.congr hfailed fun t frame left next => ?_
  by_cases ht : t = s
  · subst ht
    simp [hpc, hpc₀, hpc₁]
  · rw [Line.setPc_ne _ _ ht, hsends]

/-- While `s` holds the lock, no other call is writing. -/
private theorem not_writing_of_locked (h : Line.lts.Reach G log l) (hpc : l.sends s = some pc)
    (hl : pc.locked = true) (hne : t ≠ s) (frame : Frame) (left : Bytes) (next : Option Bytes) :
    l.sends t ≠ some (.writing frame left next) := fun ht =>
  hne (locked_unique h ht rfl hpc hl)

/-- When the call that holds the lock stops writing, no call is writing. -/
private theorem not_writing_after (h : Line.lts.Reach G log l) (hpc : l.sends s = some pc)
    (hl : pc.locked = true) (hsends : l₁.sends = l.sends) (t : SendId) (frame : Frame)
    (left : Bytes) (next : Option Bytes) :
    (l₁.setPc s (.unlock err)).sends t ≠ some (.writing frame left next) := by
  by_cases hts : t = s
  · subst hts
    simp
  · rw [Line.setPc_ne _ _ hts, hsends]
    exact not_writing_of_locked h hpc hl hts frame left next

private theorem append_take_drop (part left rest : Bytes) (n : Nat) :
    part ++ (left ++ rest) = part ++ left.take n ++ (left.drop n ++ rest) := by
  rw [List.append_assoc, ← List.append_assoc (left.take n), List.take_append_drop]

/-- A call starts to write. -/
private theorem Line.Tail.accepted {frame : Frame} (h : Line.lts.Reach G log l)
    (htail : l.Tail log part) (hpc : l.sends s = some (.check frame))
    (hw : writeFrame frame = .ok frame.bytes) :
    (l.setPc s (.writing frame frame.header (some frame.payload))).Tail log part := by
  cases htail with
  | idle hf => exact .writing hf (Line.setPc_self _ _ _) hw
  | @writing t f _ left next _ ht =>
    -- the lock keeps the two apart
    obtain rfl := locked_unique h ht rfl hpc rfl
    exact nomatch ht.symm.trans hpc
  | broken hf hnone hfin hpart =>
    refine .broken hf (fun t f left next ht => ?_) hfin hpart
    by_cases hts : t = s
    · subst hts
      rw [Line.setPc_self, Option.some.injEq, SendPc.writing.injEq] at ht
      obtain ⟨rfl, rfl, rfl⟩ := ht
      exact hw
    · rw [Line.setPc_ne _ _ hts] at ht
      exact hnone t f left next ht

section Writing

variable {frame : Frame} {next : Option Bytes}

/-- Inside `writeFull`, the part at the end of the stream is that of the call, or a `Write` has
    failed before. -/
private theorem Line.Tail.of_writing (h : Line.lts.Reach G log l) (htail : l.Tail log part)
    (hpc : l.sends s = some (.writing frame left next)) :
    (l.failed = false ∧ writeFrame frame = .ok (part ++ (left ++ next.getD []))) ∨
    (l.failed = true ∧ writeFrame frame = .ok (left ++ next.getD []) ∧
      ∃ t f left err, .finished t f left (some err) ∈ log ∧ writeFrame f = .ok (part ++ left)) := by
  cases htail with
  | idle _ hnone => exact absurd hpc (hnone s frame left next)
  | @writing t f _ left₁ next₁ hf ht hw =>
    obtain rfl := locked_unique h ht rfl hpc rfl
    rw [hpc, Option.some.injEq, SendPc.writing.injEq] at ht
    obtain ⟨rfl, rfl, rfl⟩ := ht
    exact .inl ⟨hf, hw⟩
  | broken hf hnone hfin hw => exact .inr ⟨hf, hnone _ _ _ _ hpc, _, _, _, _, hfin, hw⟩

/-- The socket takes a piece. -/
private theorem Line.StreamInv.write (h : Line.lts.Reach Line.Reliable log l)
    (hinv : l.StreamInv log) (hpc : l.sends s = some (.writing frame left next))
    (hg : l.Reliable (.write s n)) (hpos : 0 < n) :
    (({ l with sent := l.sent ++ left.take n } : Line).setPc s
      (.writing frame (left.drop n) next)).StreamInv log := by
  obtain ⟨p, part, hsent, hframed, htail⟩ := hinv
  rcases htail.of_writing h hpc with ⟨hf, hw⟩ | ⟨hf, -⟩
  · refine ⟨p, part ++ left.take n, ?_, hframed, .writing hf (Line.setPc_self _ _ _) ?_⟩
    · show l.sent ++ left.take n = _
      rw [hsent, List.append_assoc]
    · rw [hw, append_take_drop]
  · -- after a failure it takes nothing
    have hzero : n = 0 := hg hf
    omega

/-- A `Write` fails. -/
private theorem Line.StreamInv.fails {err : WriteErr} (h : Line.lts.Reach Line.Reliable log l)
    (hinv : l.StreamInv log) (hpc : l.sends s = some (.writing frame left next))
    (hg : l.Reliable a) :
    (({ l with sent := l.sent ++ left.take a.takes, failed := true } : Line).setPc s
      (.unlock (some err))).StreamInv
        (log ++ [.finished s frame (left.drop a.takes ++ next.getD []) (some err)]) := by
  obtain ⟨p, part, hsent, hframed, htail⟩ := hinv
  have hnone (t : SendId) (f : Frame) (left₁ : Bytes) (next₁ : Option Bytes) :
      (({ l with sent := l.sent ++ left.take a.takes, failed := true } : Line).setPc s
        (.unlock (some err))).sends t ≠ some (.writing f left₁ next₁) :=
    not_writing_after h hpc rfl rfl t f left₁ next₁
  rcases htail.of_writing h hpc with ⟨hf, hw⟩ | ⟨hf, -, t, f, left₁, err₁, hfin, hw⟩
  · refine ⟨p, part ++ left.take a.takes, ?_, by simpa [completions] using hframed, ?_⟩
    · show l.sent ++ left.take a.takes = _
      rw [hsent, List.append_assoc]
    · refine .broken rfl (fun t f left₁ next₁ ht => absurd ht (hnone t f left₁ next₁))
        (List.mem_append_right _ (List.mem_singleton.mpr rfl)) ?_
      rw [hw, append_take_drop]
  · have hzero : a.takes = 0 := hg hf
    refine ⟨p, part, ?_, by simpa [completions] using hframed, ?_⟩
    · show l.sent ++ left.take a.takes = _
      rw [hzero, List.take_zero, List.append_nil, hsent]
    · exact .broken rfl (fun t f left₁ next₁ ht => absurd ht (hnone t f left₁ next₁))
        (List.mem_append_left _ hfin) hw

/-- The payload follows the header. -/
private theorem Line.Tail.payload {payload : Bytes} (h : Line.lts.Reach Line.Reliable log l)
    (htail : l.Tail log part) (hpc : l.sends s = some (.writing frame [] (some payload))) :
    (l.setPc s (.writing frame payload none)).Tail log part := by
  rcases htail.of_writing h hpc with ⟨hf, hw⟩ | ⟨hf, hw, t, f, left, err, hfin, hpart⟩
  · exact .writing hf (Line.setPc_self _ _ _) (by simpa using hw)
  · refine .broken hf (fun t f left next ht => ?_) hfin hpart
    by_cases hts : t = s
    · subst hts
      rw [Line.setPc_self, Option.some.injEq, SendPc.writing.injEq] at ht
      obtain ⟨rfl, rfl, rfl⟩ := ht
      simpa using hw
    · rw [Line.setPc_ne _ _ hts] at ht
      exact absurd ht (not_writing_of_locked h hpc rfl hts f left next)

/-- The frame has been taken whole. -/
private theorem Line.StreamInv.complete (h : Line.lts.Reach Line.Reliable log l)
    (hinv : l.StreamInv log) (hpc : l.sends s = some (.writing frame [] none)) :
    (l.setPc s (.unlock none)).StreamInv (log ++ [.finished s frame [] none]) := by
  obtain ⟨p, part, hsent, hframed, htail⟩ := hinv
  rcases htail.of_writing h hpc with ⟨hf, hw⟩ | ⟨-, hw, -⟩
  · refine ⟨p ++ part, [], by simpa [Line.setPc] using hsent, ?_, ?_⟩
    · have hwhole : writeFrame frame = .ok part := by simpa using hw
      simpa [completions] using hframed.concat hwhole
    · exact .idle hf (not_writing_after h hpc rfl rfl)
  · exact absurd rfl (writeFrame_ne_nil frame _ hw)

end Writing

/-- A step keeps the form of the stream. -/
private theorem Line.StreamInv.step (h : Line.lts.Reach Line.Reliable log l)
    (hinv : l.StreamInv log) (hg : l.Reliable a) (heff : LineEffect l a l' os) :
    l'.StreamInv (log ++ os) := by
  have ⟨p, part, hsent, hframed, htail⟩ := hinv
  cases heff with
  | @called _ s frame pc hnone hpc =>
    refine ⟨p, part, hsent, by simpa [completions] using hframed, htail.congr rfl ?_⟩
    intro t f left next
    by_cases ht : t = s
    · subst ht
      rcases hpc with rfl | rfl <;> simp [hnone]
    · rw [Line.setPc_ne _ _ ht]
  | closeDone =>
    exact ⟨p, part, hsent, by simpa using hframed, htail.congr rfl fun _ _ _ _ => Iff.rfl⟩
  | @move _ s pc pc' l₁ _ hpc hm =>
    cases hm with
    | refused | admitted | lock | unlock | rejected =>
      refine ⟨p, part, hsent, by simpa [completions] using hframed, ?_⟩
      exact htail.quiet hpc rfl rfl nofun nofun
    | accepted hw =>
      rw [List.append_nil]
      exact ⟨p, part, hsent, hframed, htail.accepted h hpc hw⟩
    | write hpos =>
      rw [List.append_nil]
      exact hinv.write h hpc hg hpos
    | fails => exact hinv.fails h hpc hg
    | payload =>
      rw [List.append_nil]
      exact ⟨p, part, hsent, hframed, htail.payload h hpc⟩
    | complete => exact hinv.complete h hpc

/-- While the socket is reliable, the stream is made of whole frames and at most one part of a
    frame. -/
theorem line_inv (h : Line.lts.Reach Line.Reliable log l) : l.StreamInv log := by
  refine h.induct_reach (P := fun log l => l.StreamInv log) ?_ ?_
  · rintro _ rfl
    exact ⟨[], [], rfl, .nil, .idle rfl nofun⟩
  · exact fun log l a l' os hr ih hg hstep => ih.step hr hg (line_step_effect hstep)

end Stream

/-! ## The order of the frames -/

section Order

variable {l' : Line}

/-- A step makes at most one observation: of a call that was not made before, of one that had
    its frame to send, or of a return. -/
private theorem LineEffect.obs (h : LineEffect l a l' os) :
    os = [] ∨ (∃ s frame, os = [.called s frame] ∧ l.sends s = none) ∨
    (∃ s frame left err pc, os = [.finished s frame left err] ∧ l.sends s = some pc ∧
      pc.frame = some frame) ∨ ∃ s r, os = [.returned s r] := by
  cases h with
  | called hnone => exact .inr (.inl ⟨_, _, rfl, hnone⟩)
  | closeDone => exact .inl rfl
  | move hpc hm =>
    cases hm.kind with
    | goes => exact .inl rfl
    | finishes hf => exact .inr (.inr (.inl ⟨_, _, _, _, _, rfl, hpc, hf⟩))
    | returns | refused => exact .inr (.inr (.inr ⟨_, _, rfl⟩))

/-- A call that completes in a step has not completed before. -/
private theorem completes_once (h : Line.lts.Reach G log l) (heff : LineEffect l a l' os)
    {frame : Frame} (hc : (s, frame) ∈ completions os) :
    (∀ f, (s, f) ∉ completions log) ∧ .returned s none ∉ log := by
  obtain ⟨left, ho⟩ := mem_completions.mp hc
  rcases heff.obs with rfl | ⟨_, _, rfl, -⟩ | ⟨t, f, _, _, pc, rfl, hpc, hf⟩ | ⟨_, _, rfl⟩
  · cases ho
  · exact nomatch List.mem_singleton.mp ho
  · obtain ⟨rfl, rfl, -⟩ := LineObs.finished.inj (List.mem_singleton.mp ho)
    obtain ⟨-, hfin, hret⟩ := sending_log h hpc hf
    refine ⟨fun f hmem => ?_, hret none⟩
    obtain ⟨left, hmem⟩ := mem_completions.mp hmem
    exact hfin _ _ _ hmem
  · exact nomatch List.mem_singleton.mp ho

/-- No call completes two writes. -/
theorem completions_nodup (h : Line.lts.Reach G log l) :
    ((completions log).map Prod.fst).Nodup := by
  refine h.induct_reach (P := fun log _ => ((completions log).map Prod.fst).Nodup) ?_ ?_
  · exact fun _ _ => List.nodup_nil
  intro log l a l' os hr ih _ hstep
  have heff := line_step_effect hstep
  rw [completions_append, List.map_append, List.nodup_append]
  refine ⟨ih, ?_, ?_⟩
  · rcases heff.obs with rfl | ⟨_, _, rfl, -⟩ | ⟨s, f, left, err, _, rfl, -⟩ | ⟨_, _, rfl⟩
    · exact List.nodup_nil
    · exact List.nodup_nil
    · cases err <;> simp [completions]
    · exact List.nodup_nil
  · rintro s hs t ht rfl
    obtain ⟨⟨s, f⟩, hold, rfl⟩ := List.mem_map.mp hs
    obtain ⟨⟨_, f'⟩, hnew, rfl⟩ := List.mem_map.mp ht
    exact (completes_once hr heff hnew).1 f hold

/-- A call that was made after another one had returned completes after it. -/
theorem completions_order (h : Line.lts.Reach G log l) {f fs ft : Frame}
    (hprec : log.Precedes (.returned s none) (.called t f)) (hs : (s, fs) ∈ completions log)
    (ht : (t, ft) ∈ completions log) : (completions log).Precedes (s, fs) (t, ft) := by
  refine h.induct_reach (P := fun log _ => log.Precedes (.returned s none) (.called t f) →
    (s, fs) ∈ completions log → (t, ft) ∈ completions log →
    (completions log).Precedes (s, fs) (t, ft)) (by simp) ?_ hprec hs ht
  intro log l a l' os hr ih _ hstep hprec hs ht
  have heff := line_step_effect hstep
  rw [completions_append] at hs ht ⊢
  rcases List.precedes_append.mp hprec with hold | hnew | ⟨hret, hcalled⟩
  · -- `s` has returned before this step, so it completed before it
    have hs : (s, fs) ∈ completions log := by
      rcases List.mem_append.mp hs with hs | hs
      · exact hs
      · exact absurd hold.mem_left (completes_once hr heff hs).2
    rcases List.mem_append.mp ht with ht | ht
    · exact List.precedes_append.mpr (.inl (ih hold hs ht))
    · exact List.precedes_append.mpr (.inr (.inr ⟨hs, ht⟩))
  · rcases heff.obs with rfl | ⟨_, _, rfl, -⟩ | ⟨_, _, _, _, _, rfl, -⟩ | ⟨_, _, rfl⟩ <;>
      simp at hnew
  · -- `t` is called in this step, and has not completed
    rcases heff.obs with rfl | ⟨_, _, rfl, hnone⟩ | ⟨_, _, _, _, _, rfl, -⟩ | ⟨_, _, rfl⟩
    · cases hcalled
    · obtain ⟨rfl, rfl⟩ := LineObs.called.inj (List.mem_singleton.mp hcalled)
      have ht : (t, ft) ∈ completions log := by simpa [completions] using ht
      obtain ⟨left, hfin⟩ := mem_completions.mp ht
      have hown := call_inv hr t
      rw [hnone] at hown
      have hmem := finished_mem_callLog.mpr hfin
      cases hlog : callLog t log with
      | nil => simp [hlog] at hmem
      | cons => rw [hlog] at hown; cases hown
    · exact nomatch List.mem_singleton.mp hcalled
    · exact nomatch List.mem_singleton.mp hcalled

end Order

/-! ## What a peer reads -/

/-- From a part of the bytes of a frame a peer reads nothing, or the frame if it is all. -/
private theorem framesOf_part {frame : Frame} (hw : writeFrame frame = .ok (part ++ left)) :
    framesOf part = [] ∨ framesOf part = [frame] := by
  by_cases hleft : left = []
  · subst hleft
    rw [List.append_nil] at hw
    right
    have hone := nextFrame_exact.scan_append writeFrame_ne_nil (.cons hw .nil) []
    simpa [framesOf, Exact.scan, Exact.scanUpTo] using hone
  · exact .inl (nextFrame_exact.scan_part writeFrame_ne_nil hw hleft)

/-- The part of a frame at the end of the stream may be a whole frame, of a call that has not
    returned or that returned an error. -/
private theorem Line.Tail.frames (h : Line.lts.Reach Line.Reliable log l)
    (htail : l.Tail log part) :
    framesOf part = [] ∨
      ∃ s frame, framesOf part = [frame] ∧ .called s frame ∈ log ∧ .returned s none ∉ log := by
  cases htail with
  | idle => exact .inl rfl
  | @writing s frame _ left next _ hs hw =>
    refine (framesOf_part hw).imp_right fun hone => ?_
    obtain ⟨hcalled, -, hret⟩ := sending_log h hs rfl
    exact ⟨s, frame, hone, hcalled, hret none⟩
  | @broken s frame _ left err _ _ hfin hw =>
    refine (framesOf_part hw).imp_right fun hone => ?_
    obtain ⟨hcalled, hret⟩ := finished_log h hfin
    exact ⟨s, frame, hone, hcalled, fun ho => nomatch hret none ho⟩

/-- What a peer reads. -/
theorem line_frames (h : Line.lts.Reach Line.Reliable log l) :
    ∃ last, framesOf l.sent = (completions log).map Prod.snd ++ last ∧
      (last = [] ∨ ∃ s frame, last = [frame] ∧ .called s frame ∈ log ∧ .returned s none ∉ log) := by
  obtain ⟨p, part, hsent, hframed, htail⟩ := line_inv h
  refine ⟨framesOf part, ?_, htail.frames h⟩
  rw [hsent]
  exact nextFrame_exact.scan_append writeFrame_ne_nil hframed part

/-- Sending is atomic on a socket that takes nothing more once a `Write` has failed or has taken
    nothing (`Line.Reliable`). In every run of any number of concurrent calls of `send` on a
    connection, whatever pieces the socket takes and wherever it fails: a peer that reads the
    stream gets the frames of the calls that completed, in the order in which they completed, and
    after them at most one frame more, of a call that has not returned or has returned an error.
    Every call that returned no error is among them, once, and calls made one after the other
    keep their order. -/
theorem send_atomic {log : List LineObs} {l : Line} (h : Line.lts.Reach Line.Reliable log l) :
    (∃ last, framesOf l.sent = (completions log).map Prod.snd ++ last ∧
      (last = [] ∨
        ∃ s frame, last = [frame] ∧ .called s frame ∈ log ∧ .returned s none ∉ log)) ∧
    ((completions log).map Prod.fst).Nodup ∧
    (∀ s, .returned s none ∈ log →
      ∃ frame, .called s frame ∈ log ∧ (s, frame) ∈ completions log) ∧
    ∀ s t f fs ft, log.Precedes (.returned s none) (.called t f) → (s, fs) ∈ completions log →
      (t, ft) ∈ completions log → (completions log).Precedes (s, fs) (t, ft) := by
  refine ⟨line_frames h, completions_nodup h, fun s ho => ?_,
    fun s t f fs ft => completions_order h⟩
  obtain ⟨frame, left, hcalled, hfin⟩ := returned_log h ho
  exact ⟨frame, hcalled, mem_completions.mpr ⟨left, hfin⟩⟩

/-- Three calls send a PING each. The second waits for the lock while the first has written one
    byte; the third gets an error after three bytes. A peer reads two frames. -/
theorem send_atomic_three :
    ∃ log l, Line.lts.Reach Line.Reliable log l ∧ l.failed = true ∧
      l.sent = [0, 0, 0, 0, 7, 0, 0, 0, 0, 7, 0, 0, 0] ∧
      completions log = [(0, ⟨typePing, []⟩), (1, ⟨typePing, []⟩)] ∧
      ((completions log).map Prod.fst).Nodup ∧
      ∃ frame, .called 1 frame ∈ log ∧ (1, frame) ∈ completions log := by
  obtain ⟨log, l, hr, hfailed, hsent, hdone, hret⟩ :=
    Lts.reach_of_runWhere (M := Line.lts) (G := Line.Reliable) rfl
      [.connectionSend 0 ⟨typePing, []⟩, .lock 0, .check 0, .write 0 1,
        .clientSend 1 ⟨typePing, []⟩, .select 1, .write 0 4, .writeDone 0, .writeDone 0, .unlock 0,
        .lock 1, .check 1, .connectionSend 2 ⟨typePing, []⟩, .write 1 5, .writeDone 1, .writeDone 1,
        .unlock 1, .lock 2, .check 2, .writeFails 2 3 [120], .unlock 2]
      (Q := fun r => r.1.failed = true ∧
        r.1.sent = [0, 0, 0, 0, 7, 0, 0, 0, 0, 7, 0, 0, 0] ∧
        completions r.2 = [(0, ⟨typePing, []⟩), (1, ⟨typePing, []⟩)] ∧ .returned 1 none ∈ r.2)
      (by decide)
  have hall := send_atomic hr
  exact ⟨log, l, hr, hfailed, hsent, hdone, hall.2.1, hall.2.2.1 1 hret⟩

end EventBus
