import EventBus.Native.Frame
import Mathlib.Data.List.GetD

/-!
# Frame codec

`ReadFrame` accepts exactly the byte strings that `WriteFrame` writes, whatever
follows them in the stream.

## Key results

- `readFull_ok_iff`: what `io.ReadFull` reads
- `readFrame_ok_iff`: `ReadFrame` inverts `WriteFrame` and accepts nothing else
- `frame_stream`: frames written one after the other are read back, however they are written
-/

namespace EventBus

theorem readFull_ok_iff (n : Nat) (r data rest : Bytes) :
    readFull n r = .ok (data, rest) ↔ data.length = n ∧ r = data ++ rest := by
  simp only [readFull]
  split
  · rename_i hle
    constructor
    · intro h
      obtain ⟨rfl, rfl⟩ := Prod.mk.inj (Except.ok.inj h)
      exact ⟨by rw [List.length_take]; omega, (List.take_append_drop n r).symm⟩
    · intro ⟨hlen, heq⟩
      subst hlen heq
      simp
  · rename_i hlt
    constructor
    · intro h
      split at h <;> exact nomatch h
    · intro ⟨hlen, heq⟩
      rw [heq, List.length_append] at hlt
      omega

theorem readFull_append (data rest : Bytes) :
    readFull data.length (data ++ rest) = .ok (data, rest) :=
  (readFull_ok_iff _ _ _ _).mpr ⟨rfl, rfl⟩

/-- What `WriteFrame` checks, and what it writes. -/
theorem writeFrame_ok_iff (frame : Frame) (p : Bytes) :
    writeFrame frame = .ok p ↔
      frame.type ≠ 0 ∧ frame.payload.length ≤ maxPayloadSize ∧
        p = frame.header ++ frame.payload := by
  unfold writeFrame
  split
  · simp [*]
  · rename_i htype
    rw [Except.ite_error_eq_ok_iff, and_iff_right htype]

/-- The header determines the type and the length of the payload. -/
private theorem header_fields (frame : Frame) (h : frame.payload.length ≤ maxPayloadSize) :
    frame.header.length = headerSize ∧
    BigEndian.get (frame.header.take 4) = frame.payload.length ∧
    frame.header.getD 4 0 = frame.type := by
  have hlen : (BigEndian.put 4 frame.payload.length).length = 4 := BigEndian.put_length _ _
  unfold Frame.header
  refine ⟨by simp [hlen, headerSize], ?_, ?_⟩
  · rw [List.take_left' hlen]
    apply BigEndian.get_put
    unfold maxPayloadSize at h
    omega
  · rw [List.getD_append_right _ _ _ _ (by omega), hlen]
    rfl

/-- A header of five bytes is that of the frame it announces. -/
private theorem header_eq (header payload : Bytes) (hlen : header.length = headerSize)
    (hsize : payload.length = BigEndian.get (header.take 4)) :
    header = (⟨header.getD 4 0, payload⟩ : Frame).header := by
  unfold headerSize at hlen
  unfold Frame.header
  have htake : (header.take 4).length = 4 := by
    rw [List.length_take]; omega
  -- the length field is the number it stands for, the type is the last byte
  have hlength := BigEndian.put_get (header.take 4)
  rw [htake, ← hsize] at hlength
  have hdrop : header.drop 4 = [header.getD 4 0] := by
    rw [List.drop_eq_getElem_cons (by omega : 4 < header.length),
      List.getD_eq_getElem _ _ (by omega), List.drop_eq_nil_of_le (by omega)]
  simp only [hlength, ← hdrop, List.take_append_drop]

/-- `ReadFrame` reads exactly what `WriteFrame` writes for the frame it returns. -/
theorem readFrame_ok_iff (bs : Bytes) (frame : Frame) (rest : Bytes) :
    readFrame bs = .ok (frame, rest) ↔ ∃ p, writeFrame frame = .ok p ∧ bs = p ++ rest := by
  constructor
  · intro h
    unfold readFrame at h
    split at h
    · cases h
    · rename_i header r hheader
      obtain ⟨hlen, rfl⟩ := (readFull_ok_iff _ _ _ _).mp hheader
      simp only at h
      split at h
      · cases h
      split at h
      · cases h
      rename_i hsize htype
      split at h
      · cases h
      · rename_i payload r' hpayload
        obtain ⟨hplen, rfl⟩ := (readFull_ok_iff _ _ _ _).mp hpayload
        obtain ⟨rfl, rfl⟩ := Prod.mk.inj (Except.ok.inj h)
        have hheader := header_eq header payload hlen hplen
        refine ⟨header ++ payload, (writeFrame_ok_iff _ _).mpr ⟨htype, ?_, ?_⟩, by simp⟩
        · show payload.length ≤ maxPayloadSize
          omega
        · rw [← hheader]
  · intro ⟨p, hp, heq⟩
    obtain ⟨htype, hsize, rfl⟩ := (writeFrame_ok_iff _ _).mp hp
    obtain ⟨hlen, hget, hgetD⟩ := header_fields frame hsize
    subst heq
    unfold readFrame
    rw [List.append_assoc, ← hlen, readFull_append]
    simp only [hget, hgetD]
    rw [if_neg (by omega), if_neg htype, readFull_append]

/-! ## Streams -/

/-- `WriteFrame` accepts the frame. -/
def Frame.accepted (frame : Frame) : Bool :=
  frame.type ≠ 0 ∧ frame.payload.length ≤ maxPayloadSize

/-- `ReadFrame`, `n` times: the frames and the input left. -/
def readFrames : Nat → Bytes → Except FrameErr (List Frame × Bytes)
  | 0, r => .ok ([], r)
  | n + 1, r =>
    match readFrame r with
    | .error err => .error err
    | .ok (frame, r) =>
      match readFrames n r with
      | .error err => .error err
      | .ok (frames, r) => .ok (frame :: frames, r)

/-- What `ReadFrame` has read from a stream, it does not read from a shorter one. -/
theorem readFrame_prefix {consumed rest part : Bytes} {frame : Frame}
    (h : readFrame (consumed ++ rest) = .ok (frame, rest)) (hpart : part <+: consumed)
    (hne : part ≠ consumed) : ∃ err, readFrame part = .error err := by
  cases hread : readFrame part with
  | error err => exact ⟨err, rfl⟩
  | ok r =>
    obtain ⟨frame', left⟩ := r
    obtain ⟨more, rfl⟩ := hpart
    obtain ⟨p, hp, rfl⟩ := (readFrame_ok_iff _ _ _).mp hread
    -- the longer stream would then be read with `more` left over
    have hlong : readFrame (p ++ left ++ more ++ rest) = .ok (frame', left ++ more ++ rest) :=
      (readFrame_ok_iff _ _ _).mpr ⟨p, hp, by simp⟩
    rw [h] at hlong
    have hrest : rest = left ++ more ++ rest := (Prod.mk.inj (Except.ok.inj hlong)).2
    have hmore := List.append_eq_nil_iff.mp (List.self_eq_append_left.mp hrest)
    exact absurd (by rw [hmore.2, List.append_nil]) hne

section Writer

variable {σ : Type}

/-- The writer accepts what it is given, in pieces of any positive length, without an error. -/
def ByteWriter.Accepts (w : ByteWriter σ) : Prop :=
  ∀ s data, data ≠ [] → 0 < (w.write s data).2.1 ∧ (w.write s data).2.2 = none

variable {w : ByteWriter σ}

/-- `writeFull` writes all of its data. -/
theorem writeFull_accepts (hw : w.Accepts) (s : σ) (data : Bytes) :
    ∃ s', writeFull w s data = ⟨s', data, none⟩ := by
  -- one case for each way out of a turn of the loop
  fun_induction writeFull w s data with
  | case1 s => exact ⟨s, rfl⟩
  | case2 s data hne s' n text hwrite =>
    -- `Write` returns an error
    have herr := (hw s data hne).2
    rw [hwrite] at herr
    cases herr
  | case3 s data hne s' hwrite =>
    -- `Write` takes nothing
    have hpos := (hw s data hne).1
    rw [hwrite] at hpos
    exact absurd hpos (Nat.lt_irrefl 0)
  | case4 s data hne s' n hwrite rest ih =>
    -- `Write` takes a part, and the loop goes on with what is left
    obtain ⟨s'', heq⟩ := ih
    have hrest : rest = ⟨s'', data.drop (n + 1), none⟩ := heq
    rw [hrest, List.take_append_drop]
    exact ⟨s'', rfl⟩

/-- `WriteFrame` rejects a frame before it writes. -/
theorem Frame.writeTo_rejected {frame : Frame} (h : frame.accepted = false) (s : σ) :
    ∃ err, frame.writeTo w s = ⟨s, [], some (.frame err)⟩ := by
  unfold Frame.writeTo
  by_cases htype : frame.type = 0
  · exact ⟨_, if_pos htype⟩
  · have hsize : frame.payload.length > maxPayloadSize := by
      simpa [Frame.accepted, htype] using h
    rw [if_neg htype, if_pos hsize]
    exact ⟨_, rfl⟩

/-- `WriteFrame` writes a frame that it accepts, whole. -/
theorem Frame.writeTo_accepted (hw : w.Accepts) {frame : Frame} (h : frame.accepted = true)
    (s : σ) : ∃ s', frame.writeTo w s = ⟨s', frame.header ++ frame.payload, none⟩ := by
  obtain ⟨htype, hsize⟩ : frame.type ≠ 0 ∧ frame.payload.length ≤ maxPayloadSize := by
    simpa [Frame.accepted] using h
  obtain ⟨s₁, hheader⟩ := writeFull_accepts hw s frame.header
  obtain ⟨s₂, hpayload⟩ := writeFull_accepts hw s₁ frame.payload
  refine ⟨s₂, ?_⟩
  unfold Frame.writeTo
  rw [if_neg htype, if_neg (by omega)]
  simp only [hheader, hpayload]

/-- The bytes that the writer has accepted after one `WriteFrame` for each of the frames. -/
def writeFrames (w : ByteWriter σ) : σ → List Frame → Bytes
  | _, [] => []
  | s, frame :: frames =>
    let written := frame.writeTo w s
    written.bytes ++ writeFrames w written.state frames

/-- The frames that were accepted are read back, whatever follows them. -/
theorem readFrames_writeFrames (hw : w.Accepts) (s : σ) (frames : List Frame) (suffix : Bytes) :
    readFrames (frames.filter Frame.accepted).length (writeFrames w s frames ++ suffix) =
      .ok (frames.filter Frame.accepted, suffix) := by
  induction frames generalizing s with
  | nil => rfl
  | cons frame frames ih =>
    cases hacc : frame.accepted with
    | false =>
      -- a rejected frame leaves no bytes on the stream
      obtain ⟨err, heq⟩ := Frame.writeTo_rejected (w := w) hacc s
      rw [List.filter_cons_of_neg (by simp [hacc])]
      simp only [writeFrames, heq, List.nil_append]
      exact ih s
    | true =>
      obtain ⟨s', heq⟩ := Frame.writeTo_accepted hw hacc s
      obtain ⟨htype, hsize⟩ : frame.type ≠ 0 ∧ frame.payload.length ≤ maxPayloadSize := by
        simpa [Frame.accepted] using hacc
      have hread :
          readFrame (frame.header ++ frame.payload ++ (writeFrames w s' frames ++ suffix)) =
          .ok (frame, writeFrames w s' frames ++ suffix) :=
        (readFrame_ok_iff _ _ _).mpr
          ⟨_, (writeFrame_ok_iff _ _).mpr ⟨htype, hsize, rfl⟩, rfl⟩
      rw [List.filter_cons_of_pos hacc]
      simp only [writeFrames, heq, List.length_cons, readFrames]
      rw [List.append_assoc, hread]
      simp only [ih s']

/-- `WriteFrame` rejects a frame without a write or writes one whole frame. The frames that
    were accepted are read back in order, with whatever follows them left unread. What
    `ReadFrame` consumes is what `WriteFrame` writes for the frame, and no part of it is enough. -/
theorem frame_stream (w : ByteWriter σ) (hw : w.Accepts) :
    (∀ (s : σ) (frame : Frame),
      (frame.accepted = true ∧
        ∃ s', frame.writeTo w s = ⟨s', frame.header ++ frame.payload, none⟩) ∨
      (frame.accepted = false ∧ ∃ err, frame.writeTo w s = ⟨s, [], some (.frame err)⟩)) ∧
    (∀ (s : σ) (frames : List Frame) (suffix : Bytes),
      readFrames (frames.filter Frame.accepted).length (writeFrames w s frames ++ suffix) =
        .ok (frames.filter Frame.accepted, suffix)) ∧
    ∀ (s : σ) (bs : Bytes) (frame : Frame) (rest : Bytes), readFrame bs = .ok (frame, rest) →
      ∃ consumed s', bs = consumed ++ rest ∧ frame.writeTo w s = ⟨s', consumed, none⟩ ∧
        ∀ part, part <+: consumed → part ≠ consumed → ∃ err, readFrame part = .error err := by
  refine ⟨fun s frame => ?_, readFrames_writeFrames hw, fun s bs frame rest hread => ?_⟩
  · cases hacc : frame.accepted with
    | true => exact .inl ⟨rfl, Frame.writeTo_accepted hw hacc s⟩
    | false => exact .inr ⟨rfl, Frame.writeTo_rejected hacc s⟩
  · obtain ⟨p, hp, rfl⟩ := (readFrame_ok_iff _ _ _).mp hread
    obtain ⟨htype, hsize, rfl⟩ := (writeFrame_ok_iff _ _).mp hp
    have hacc : frame.accepted = true := by simp [Frame.accepted, htype, hsize]
    obtain ⟨s', heq⟩ := Frame.writeTo_accepted hw hacc s
    exact ⟨_, s', rfl, heq, fun part hpart hne => readFrame_prefix hread hpart hne⟩

end Writer

/-- A writer that accepts one byte at a time and counts them. -/
def singleWriter : ByteWriter Nat where
  write s data := (s + 1, min 1 data.length, none)
  bound _ _ := Nat.min_le_right ..

/-- A frame of type 0 is rejected, a PING frame is read back, and the byte after it is left. -/
theorem frame_stream_ping : singleWriter.Accepts ∧
    readFrames 1 (writeFrames singleWriter 0 [⟨0, [1]⟩, ⟨typePing, []⟩] ++ [9]) =
      .ok ([⟨typePing, []⟩], [9]) := by
  have haccepts : singleWriter.Accepts := by
    intro s data hne
    have hpos := List.length_pos_iff.mpr hne
    exact ⟨by show 0 < min 1 data.length; omega, rfl⟩
  exact ⟨haccepts, (frame_stream singleWriter haccepts).2.1 0 [⟨0, [1]⟩, ⟨typePing, []⟩] [9]⟩

end EventBus
