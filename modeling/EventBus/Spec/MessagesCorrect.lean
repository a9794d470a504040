import EventBus.Native.Messages
import EventBus.Spec.FrameCorrect

/-!
# Message codecs

Every decoder accepts exactly the payloads its encoder produces. The proofs go field by
field: `readString` and `readBytes` read exactly what `writeString` and `writeBytes`
write, and a decoder is such reads in a row with nothing left at the end.

## Key results

- `readString_exact`, `readBytes_exact`: the fields
- `publish_codec`, `ack_codec`, `topic_codec`, …: the messages
- `message_codecs`: all of them
-/

namespace EventBus

/-! ## Fields -/

/-- `writeString` writes the length in two bytes and then the string, up to `maxStringSize`. -/
theorem writeString_ok_iff (value p : Bytes) :
    writeString value = .ok p ↔
      value.length ≤ maxStringSize ∧ p = BigEndian.put 2 value.length ++ value :=
  Except.ite_error_eq_ok_iff

/-- `writeBytes` writes the length in four bytes and then the data, up to `maxPayloadSize`. -/
theorem writeBytes_ok_iff (data p : Bytes) :
    writeBytes data = .ok p ↔
      data.length ≤ maxPayloadSize ∧ p = BigEndian.put 4 data.length ++ data :=
  Except.ite_error_eq_ok_iff

/-- `writeString` fails on a string that is too long, and on no other. -/
theorem writeString_encodes (value : Bytes) :
    (∃ p, writeString value = .ok p) ↔ value.length ≤ maxStringSize := by
  simp [writeString_ok_iff]

/-- `writeBytes` fails on data that is too long, and on no other. -/
theorem writeBytes_encodes (data : Bytes) :
    (∃ p, writeBytes data = .ok p) ↔ data.length ≤ maxPayloadSize := by
  simp [writeBytes_ok_iff]

/-- A length field of `k` bytes is the number it stands for. -/
private theorem put_of_get {k : Nat} {length : Bytes} (hlen : length.length = k) :
    BigEndian.put k (BigEndian.get length) = length := by
  rw [← hlen, BigEndian.put_get]

/-- `readFull` reads a length field back. -/
private theorem readFull_put (k n : Nat) (rest : Bytes) :
    readFull k (BigEndian.put k n ++ rest) = .ok (BigEndian.put k n, rest) :=
  (readFull_ok_iff _ _ _ _).mpr ⟨BigEndian.put_length k n, rfl⟩

/-- `readString` accepts what `writeString` writes, nothing else, and leaves the rest. -/
theorem readString_exact : Exact writeString readString := by
  intro bs value rest
  constructor
  · intro h
    unfold readString at h
    split at h
    · cases h
    · rename_i length r hlength
      obtain ⟨hk, rfl⟩ := (readFull_ok_iff _ _ _ _).mp hlength
      split at h
      · cases h
      · rename_i data r' hdata
        obtain ⟨hn, rfl⟩ := (readFull_ok_iff _ _ _ _).mp hdata
        obtain ⟨rfl, rfl⟩ := Prod.mk.inj (Option.some.inj h)
        -- two bytes cannot announce more than `maxStringSize`
        have hlt := BigEndian.get_lt length
        rw [hk] at hlt
        refine ⟨length ++ data, (writeString_ok_iff _ _).mpr ⟨?_, ?_⟩, by simp⟩
        · unfold maxStringSize
          omega
        · rw [hn, put_of_get hk]
  · intro ⟨p, hp, heq⟩
    obtain ⟨hsize, rfl⟩ := (writeString_ok_iff _ _).mp hp
    -- the length fits in its field, so that it is read back
    have hget : BigEndian.get (BigEndian.put 2 value.length) = value.length := by
      apply BigEndian.get_put
      unfold maxStringSize at hsize
      omega
    subst heq
    unfold readString
    rw [List.append_assoc, readFull_put]
    simp only [hget, readFull_append]

/-- `readBytes` accepts what `writeBytes` writes, nothing else, and leaves the rest. -/
theorem readBytes_exact : Exact writeBytes readBytes := by
  intro bs data rest
  constructor
  · intro h
    unfold readBytes at h
    split at h
    · cases h
    · rename_i length r hlength
      obtain ⟨hk, rfl⟩ := (readFull_ok_iff _ _ _ _).mp hlength
      split at h
      -- a length above `maxPayloadSize`, before anything is allocated
      · cases h
      · rename_i hsize
        split at h
        · exact nomatch h
        · rename_i data' r' hdata
          obtain ⟨hn, rfl⟩ := (readFull_ok_iff _ _ _ _).mp hdata
          obtain ⟨rfl, rfl⟩ := Prod.mk.inj (Option.some.inj h)
          refine ⟨length ++ data', (writeBytes_ok_iff _ _).mpr ⟨by omega, ?_⟩, by simp⟩
          rw [hn, put_of_get hk]
  · intro ⟨p, hp, heq⟩
    obtain ⟨hsize, rfl⟩ := (writeBytes_ok_iff _ _).mp hp
    have hget : BigEndian.get (BigEndian.put 4 data.length) = data.length := by
      apply BigEndian.get_put
      unfold maxPayloadSize at hsize
      omega
    subst heq
    unfold readBytes
    rw [List.append_assoc, readFull_put]
    simp only [hget, readFull_append]
    rw [if_neg (by omega)]

/-! ## Messages of one string -/

/-- The SUBSCRIBE and UNSUBSCRIBE payload: one string with nothing behind it. -/
theorem topic_codec :
    Codec encodeTopic decodeTopic fun m => m.topic.length ≤ maxStringSize := by
  refine .of_append .invalidPayload (fun p m h => ?_) (fun p m rest h => ?_) fun m => ?_
  · unfold decodeTopic at h
    split at h
    · cases h
    · rename_i topic r htopic
      split at h
      · cases h
      · rename_i hr
        obtain rfl := Except.ok.inj h
        obtain ⟨q, hq, rfl⟩ := Exact.encode readString_exact htopic
        obtain rfl : r = [] := by simpa using hr
        rw [List.append_nil]
        exact hq
  · unfold decodeTopic
    rw [Exact.decode readString_exact h rest]
  · exact writeString_encodes m.topic

/-- The CONNECT payload is a client ID in the place of the topic. -/
theorem connect_codec :
    Codec encodeConnect decodeConnect fun m => m.clientID.length ≤ maxStringSize := by
  -- `decodeConnect` repeats the body of `decodeTopic`
  have heq : decodeConnect = fun p => (decodeTopic p).map fun m => ⟨m.topic⟩ := by
    funext p
    unfold decodeConnect decodeTopic
    split
    · rfl
    · split <;> rfl
  rw [heq]
  exact Codec.map topic_codec _ (fun m : ConnectMessage => ⟨m.clientID⟩) (fun _ => rfl)
    fun _ => rfl

/-- The ERROR payload is a text in the place of the topic; `decodeError` calls `decodeTopic`. -/
theorem error_codec :
    Codec encodeError decodeError fun m => m.error.length ≤ maxStringSize := by
  have heq : decodeError = fun p => (decodeTopic p).map fun m => ⟨m.topic⟩ := by
    funext p
    unfold decodeError
    cases decodeTopic p <;> rfl
  rw [heq]
  exact Codec.map topic_codec _ (fun m : ErrorMessage => ⟨m.error⟩) (fun _ => rfl) fun _ => rfl

/-- The SHUTDOWN payload is a redirect in the place of the topic. -/
theorem shutdown_codec :
    Codec encodeShutdown decodeShutdown fun m => m.redirect.length ≤ maxStringSize := by
  have heq : decodeShutdown = fun p => (decodeTopic p).map fun m => ⟨m.topic⟩ := by
    funext p
    unfold decodeShutdown
    cases decodeTopic p <;> rfl
  rw [heq]
  exact Codec.map topic_codec _ (fun m : ShutdownMessage => ⟨m.redirect⟩) (fun _ => rfl)
    fun _ => rfl

/-- `decodeTopic` inverts `encodeTopic`. -/
theorem decodeTopic_ok_iff (p : Bytes) (m : TopicMessage) :
    decodeTopic p = .ok m ↔ encodeTopic m = .ok p := Codec.inverse topic_codec p m

/-- `decodeConnect` inverts `encodeConnect`. -/
theorem decodeConnect_ok_iff (p : Bytes) (m : ConnectMessage) :
    decodeConnect p = .ok m ↔ encodeConnect m = .ok p := Codec.inverse connect_codec p m

/-- `decodeShutdown` inverts `encodeShutdown`. -/
theorem decodeShutdown_ok_iff (p : Bytes) (m : ShutdownMessage) :
    decodeShutdown p = .ok m ↔ encodeShutdown m = .ok p := Codec.inverse shutdown_codec p m

/-! ## Acknowledgements -/

/-- What an encoded acknowledgement consists of. -/
theorem encodeAck_ok_iff (m : AckMessage) (p : Bytes) :
    encodeAck m = .ok p ↔ ∃ id error, writeString m.id = .ok id ∧ writeString m.error = .ok error ∧
      p = id ++ (m.status :: error) := by
  unfold encodeAck
  simp only [Except.bind_eq_ok_iff, pure, Except.pure, Except.ok.injEq]
  constructor
  · intro ⟨id, hid, error, herror, hp⟩
    exact ⟨id, error, hid, herror, hp.symm⟩
  · intro ⟨id, error, hid, herror, hp⟩
    exact ⟨id, hid, error, herror, hp.symm⟩

/-- The ACK payload: an ID, the status byte and an error text. -/
theorem ack_codec : Codec encodeAck decodeAck fun m =>
    m.id.length ≤ maxStringSize ∧ m.error.length ≤ maxStringSize := by
  refine .of_append .invalidPayload (fun p m h => ?_) (fun p m rest h => ?_) fun m => ?_
  · rw [encodeAck_ok_iff]
    unfold decodeAck at h
    split at h
    · cases h
    · rename_i id r hid
      split at h
      · cases h
      · rename_i status r' hstatus
        split at h
        · cases h
        · rename_i error r'' herror
          split at h
          · cases h
          · rename_i hr
            obtain rfl := Except.ok.inj h
            obtain ⟨pid, hpid, rfl⟩ := Exact.encode readString_exact hid
            obtain ⟨perror, hperror, rfl⟩ := Exact.encode readString_exact herror
            obtain rfl : r'' = [] := by simpa using hr
            -- the status byte is what stands between the two strings
            cases r with
            | nil => cases hstatus
            | cons b r =>
              cases hstatus
              exact ⟨pid, perror, hpid, hperror, by simp⟩
  · obtain ⟨pid, perror, hpid, hperror, rfl⟩ := (encodeAck_ok_iff m p).mp h
    unfold decodeAck
    rw [List.append_assoc, Exact.decode readString_exact hpid]
    simp only [List.cons_append, readByte, Exact.decode readString_exact hperror]
  · simp only [encodeAck_ok_iff, ← writeString_encodes]
    exact ⟨fun ⟨_, pid, perror, hpid, hperror, _⟩ => ⟨⟨pid, hpid⟩, perror, hperror⟩,
      fun ⟨⟨pid, hpid⟩, perror, hperror⟩ => ⟨_, pid, perror, hpid, hperror, rfl⟩⟩

/-- `decodeAck` inverts `encodeAck`. -/
theorem decodeAck_ok_iff (p : Bytes) (m : AckMessage) :
    decodeAck p = .ok m ↔ encodeAck m = .ok p := Codec.inverse ack_codec p m

/-- `WriteFrame` accepts every ACK. -/
theorem writeFrame_ack {ack : AckMessage} {payload : Bytes} (henc : encodeAck ack = .ok payload) :
    ∃ bytes, writeFrame ⟨typeAck, payload⟩ = .ok bytes := by
  rw [encodeAck_ok_iff] at henc
  obtain ⟨id, error, hid, herror, rfl⟩ := henc
  rw [writeString_ok_iff] at hid herror
  obtain ⟨hidLen, rfl⟩ := hid
  obtain ⟨herrorLen, rfl⟩ := herror
  refine ⟨_, (writeFrame_ok_iff _ _).mpr ⟨(by decide : typeAck ≠ 0), ?_, rfl⟩⟩
  -- two strings of at most 65535 bytes, their lengths and the status are far below 16 MiB
  simp only [List.length_append, List.length_cons, BigEndian.put_length, maxStringSize,
    maxPayloadSize] at hidLen herrorLen ⊢
  omega

/-! ## Events -/

/-- What an encoded event consists of. -/
theorem encodePublish_ok_iff (m : PublishMessage) (p : Bytes) :
    encodePublish m = .ok p ↔ ∃ id idempotencyKey topic key payload,
      writeString m.id = .ok id ∧ writeString m.idempotencyKey = .ok idempotencyKey ∧
      writeString m.topic = .ok topic ∧ writeString m.key = .ok key ∧
      writeBytes m.payload = .ok payload ∧
      p = id ++ (idempotencyKey ++ (topic ++ (key ++ payload))) := by
  unfold encodePublish
  simp only [Except.bind_eq_ok_iff, pure, Except.pure, Except.ok.injEq]
  constructor
  · intro ⟨id, hid, idempotencyKey, hik, topic, htopic, key, hkey, payload, hpayload, hp⟩
    exact ⟨id, idempotencyKey, topic, key, payload, hid, hik, htopic, hkey, hpayload, hp.symm⟩
  · intro ⟨id, idempotencyKey, topic, key, payload, hid, hik, htopic, hkey, hpayload, hp⟩
    exact ⟨id, hid, idempotencyKey, hik, topic, htopic, key, hkey, payload, hpayload, hp.symm⟩

/-- The fields of the message are short enough to be encoded. -/
def PublishMessage.Fits (m : PublishMessage) : Prop :=
  m.id.length ≤ maxStringSize ∧ m.idempotencyKey.length ≤ maxStringSize ∧
    m.topic.length ≤ maxStringSize ∧ m.key.length ≤ maxStringSize ∧
    m.payload.length ≤ maxPayloadSize

/-- The PUBLISH payload: four strings and the data of the event. -/
theorem publish_codec : Codec encodePublish decodePublish PublishMessage.Fits := by
  refine .of_append .invalidPayload (fun p m h => ?_) (fun p m rest h => ?_) fun m => ?_
  · rw [encodePublish_ok_iff]
    -- every field has been read, and nothing is left
    unfold decodePublish at h
    split at h
    · cases h
    rename_i id r₁ hid
    split at h
    · cases h
    rename_i idempotencyKey r₂ hik
    split at h
    · cases h
    rename_i topic r₃ htopic
    split at h
    · cases h
    rename_i key r₄ hkey
    split at h
    · cases h
    rename_i data r₅ hdata
    split at h
    · cases h
    rename_i hr
    obtain rfl := Except.ok.inj h
    -- each field read is the encoding of its value, from the first to the last
    obtain ⟨pid, hpid, rfl⟩ := Exact.encode readString_exact hid
    obtain ⟨pik, hpik, rfl⟩ := Exact.encode readString_exact hik
    obtain ⟨ptopic, hptopic, rfl⟩ := Exact.encode readString_exact htopic
    obtain ⟨pkey, hpkey, rfl⟩ := Exact.encode readString_exact hkey
    obtain ⟨pdata, hpdata, rfl⟩ := Exact.encode readBytes_exact hdata
    obtain rfl : r₅ = [] := by simpa using hr
    exact ⟨pid, pik, ptopic, pkey, pdata, hpid, hpik, hptopic, hpkey, hpdata, by simp⟩
  · obtain ⟨pid, pik, ptopic, pkey, pdata, hpid, hpik, hptopic, hpkey, hpdata, rfl⟩ :=
      (encodePublish_ok_iff m p).mp h
    unfold decodePublish
    simp only [List.append_assoc, Exact.decode readString_exact hpid,
      Exact.decode readString_exact hpik, Exact.decode readString_exact hptopic,
      Exact.decode readString_exact hpkey, Exact.decode readBytes_exact hpdata]
  · unfold PublishMessage.Fits
    simp only [encodePublish_ok_iff, ← writeString_encodes, ← writeBytes_encodes]
    constructor
    · intro ⟨_, pid, pik, ptopic, pkey, pdata, hpid, hpik, hptopic, hpkey, hpdata, _⟩
      exact ⟨⟨pid, hpid⟩, ⟨pik, hpik⟩, ⟨ptopic, hptopic⟩, ⟨pkey, hpkey⟩, pdata, hpdata⟩
    · intro ⟨⟨pid, hpid⟩, ⟨pik, hpik⟩, ⟨ptopic, hptopic⟩, ⟨pkey, hpkey⟩, pdata, hpdata⟩
      exact ⟨_, pid, pik, ptopic, pkey, pdata, hpid, hpik, hptopic, hpkey, hpdata, rfl⟩

/-- The EVENT payload is a PUBLISH payload, and an event has the fields of a PUBLISH message. -/
theorem event_codec : Codec encodeEvent decodeEvent fun event => event.message.Fits := by
  have heq : decodeEvent = fun p => (decodePublish p).map PublishMessage.event := by
    funext p
    unfold decodeEvent
    cases decodePublish p <;> rfl
  rw [heq]
  exact Codec.map publish_codec _ Event.message (fun _ => rfl) fun _ => rfl

/-- `decodePublish` inverts `encodePublish`. -/
theorem decodePublish_ok_iff (p : Bytes) (m : PublishMessage) :
    decodePublish p = .ok m ↔ encodePublish m = .ok p := Codec.inverse publish_codec p m

/-- `decodeEvent` inverts `encodeEvent`. -/
theorem decodeEvent_ok_iff (p : Bytes) (event : Event) :
    decodeEvent p = .ok event ↔ encodeEvent event = .ok p := Codec.inverse event_codec p event

/-- Every decoder is the exact inverse of its encoder, and an encoder fails only if a string is
    longer than 65535 bytes or the data field than 16 MiB. -/
theorem message_codecs :
    Codec encodeConnect decodeConnect (fun m => m.clientID.length ≤ maxStringSize) ∧
    Codec encodeTopic decodeTopic (fun m => m.topic.length ≤ maxStringSize) ∧
    Codec encodeError decodeError (fun m => m.error.length ≤ maxStringSize) ∧
    Codec encodeShutdown decodeShutdown (fun m => m.redirect.length ≤ maxStringSize) ∧
    Codec encodePublish decodePublish PublishMessage.Fits ∧
    Codec encodeEvent decodeEvent (fun event => event.message.Fits) ∧
    Codec encodeAck decodeAck
      (fun m => m.id.length ≤ maxStringSize ∧ m.error.length ≤ maxStringSize) :=
  ⟨connect_codec, topic_codec, error_codec, shutdown_codec, publish_codec, event_codec, ack_codec⟩

/-- The message that a PUBLISH frame carries. -/
def publishOf (frame : Frame) : Option PublishMessage :=
  if frame.type = typePublish then (decodePublish frame.payload).toOption else none

/-- A frame carries a message if it is a PUBLISH that decodes to it. -/
theorem publishOf_eq_some {frame : Frame} {m : PublishMessage} :
    publishOf frame = some m ↔ frame.type = typePublish ∧ decodePublish frame.payload = .ok m := by
  unfold publishOf
  split
  · rename_i htype
    cases hdec : decodePublish frame.payload with
    | error err => simp [Except.toOption]
    | ok m' => simp [Except.toOption, htype]
  · rename_i htype
    simp [htype]

end EventBus
