import CameraPower.Proofs.DecoderSoundness
import CameraPower.Proofs.PlanArithmetic
import Mathlib.Data.List.Basic

/-!
# A buffer that is one frame

A buffer is read as a frame just when it is an encoding from its first byte to its last.  A decoder
that is fed with it then gives this frame and no other; it may give the same for a longer buffer, so
that the size has to fit as well.

* `Frame.Reading`            what a buffer can be, and what is made of it;
* `Frame.decode?_eq_ok_iff`  the buffers that are read as a frame;
* `Frame.decodeChecked?`     reading by index, with no result where an index leaves the buffer;
* `Decoder.feedAll_bytes`, `Decoder.bytes_of_feedAll`  encodings, and streams that give one frame;
* `Frame.reads_whole`        the two ways of reading agree.
-/

namespace CameraPower

open Flash (slice? slice?_of_le)

namespace Frame

/-! ## what a buffer can be -/

/-- what is made of a buffer that is as long as it declares, by the checksum behind it -/
def judge (high low command : UInt8) (payload : List UInt8) (crcHigh crcLow : UInt8) :
    Except Error Frame :=
  let computed := Crc.ofBytes (high :: low :: command :: payload) Crc.initial
  let received := Words.ofBigEndian crcHigh crcLow
  if computed = received then .ok ⟨command, payload, received⟩
  else .error (.protocol (.checksum computed received))

/-- What a buffer can be, and what is made of it. -/
inductive Reading : List UInt8 → Except Error Frame → Prop
  | short {buffer : List UInt8} (few : buffer.length < overhead + 1) :
    Reading buffer (.error (.protocol .frameTooShort))
  | unopened {start : UInt8} {rest : List UInt8} (many : overhead ≤ rest.length)
    (other : start ≠ startByte) : Reading (start :: rest) (.error (.protocol (.startByte start)))
  | misfit {high low : UInt8} {rest : List UInt8} (many : overhead + 1 ≤ rest.length + 3)
    (wrong : (Words.ofBigEndian high low).toNat = 0 ∨
      rest.length + 3 ≠ overhead + (Words.ofBigEndian high low).toNat) :
    Reading (startByte :: high :: low :: rest)
      (.error (.protocol (.lengthField (Words.ofBigEndian high low).toNat (rest.length + 3))))
  | whole {high low command crcHigh crcLow : UInt8} {payload : List UInt8}
    (fits : (Words.ofBigEndian high low).toNat = payload.length + 1) :
    Reading (startByte :: high :: low :: command :: (payload ++ [crcHigh, crcLow]))
      (judge high low command payload crcHigh crcLow)

section
variable {high low command crcHigh crcLow : UInt8} {payload : List UInt8}

theorem decode?_whole (fits : (Words.ofBigEndian high low).toNat = payload.length + 1) :
    decode? (startByte :: high :: low :: command :: (payload ++ [crcHigh, crcLow])) =
      judge high low command payload crcHigh crcLow := by
  have hsize : (startByte :: high :: low :: command :: (payload ++ [crcHigh, crcLow])).length =
      overhead + (payload.length + 1) := by
    simp only [List.length_cons, List.length_append, List.length_nil, overhead]
    omega
  have hlong : ¬ overhead + (payload.length + 1) < overhead + 1 := by omega
  have hdeclared : ¬ (payload.length + 1 = 0 ∨
      overhead + (payload.length + 1) ≠ overhead + (payload.length + 1)) := by omega
  rw [decode?, hsize, if_neg hlong]
  simp only [split?, fits, Nat.add_sub_cancel, List.drop_left, List.take_left]
  rw [if_neg (not_not.mpr rfl), if_neg hdeclared]
  rfl

theorem reading_decode? (buffer : List UInt8) : Reading buffer (decode? buffer) := by
  by_cases hshort : buffer.length < overhead + 1
  · rw [decode?, if_pos hshort]
    exact .short hshort
  have hlong : 6 ≤ buffer.length := Nat.le_of_not_lt hshort
  match buffer, hlong with
  | start :: high :: low :: command :: rest, hlong =>
    simp only [List.length_cons] at hlong
    by_cases hstart : start = startByte
    case neg =>
      rw [decode?, if_neg hshort, split?, if_pos hstart]
      exact .unopened (by simp only [List.length_cons, overhead]; omega) hstart
    subst hstart
    let declared := (Words.ofBigEndian high low).toNat
    by_cases hwrong : declared = 0 ∨ rest.length + 4 ≠ overhead + declared
    · rw [decode?, if_neg hshort]
      simp only [split?, List.length_cons]
      rw [if_neg (not_not.mpr rfl), if_pos hwrong]
      exact .misfit (by simp only [List.length_cons, overhead]; omega) hwrong
    · -- behind the payload two bytes are left
      have hfits : 1 ≤ declared ∧ rest.length = declared + 1 := by
        unfold overhead at hwrong
        omega
      obtain ⟨crcHigh, crcLow, hcrc⟩ : ∃ crcHigh crcLow,
          rest.drop (declared - 1) = [crcHigh, crcLow] := by
        refine List.length_eq_two.mp ?_
        rw [List.length_drop]
        omega
      have hsize : declared = (rest.take (declared - 1)).length + 1 := by
        rw [List.length_take]
        omega
      have hrest : rest = rest.take (declared - 1) ++ [crcHigh, crcLow] := by
        rw [← hcrc, List.take_append_drop]
      rw [hrest, decode?_whole hsize]
      exact .whole hsize

/-! ## buffers that are encodings -/

theorem covered_of_fits (fits : (Words.ofBigEndian high low).toNat = payload.length + 1) :
    covered command payload = high :: low :: command :: payload := by
  have hfield : lengthField payload = Words.ofBigEndian high low := by
    rw [lengthField, Nat.add_comm, ← fits, UInt16.ofNat_toNat]
  rw [covered, hfield, Words.bigEndian_ofBigEndian]
  rfl

/-- what was encoded is read -/
theorem decode?_bytes (h : payload.length ≤ maxPayload) :
    decode? (bytes command payload) = .ok ⟨command, payload, checksum command payload⟩ := by
  let length := lengthField payload
  let crc := checksum command payload
  have hfits : (Words.ofBigEndian (length >>> 8).toUInt8 length.toUInt8).toNat =
      payload.length + 1 := by
    rw [Words.ofBigEndian_bigEndian, toNat_lengthField h, Nat.add_comm]
  have hbytes : bytes command payload = startByte :: (length >>> 8).toUInt8 :: length.toUInt8 ::
      command :: (payload ++ [(crc >>> 8).toUInt8, crc.toUInt8]) := rfl
  rw [hbytes, decode?_whole hfits, judge, Words.ofBigEndian_bigEndian]
  exact if_pos rfl

/-- **The buffers that are read as a frame** are the encodings. -/
theorem decode?_eq_ok_iff (buffer : List UInt8) (frame : Frame) :
    decode? buffer = .ok frame ↔
      ∃ command payload, payload.length ≤ maxPayload ∧ buffer = bytes command payload ∧
        frame = ⟨command, payload, checksum command payload⟩ := by
  constructor
  · intro h
    have hreading := reading_decode? buffer
    generalize decode? buffer = result at h hreading
    cases hreading with
    | short few => cases h
    | unopened many other => cases h
    | misfit many wrong => cases h
    | @whole high low command crcHigh crcLow payload fits =>
      rw [judge] at h
      split at h
      · next hcrc =>
        cases h
        have hsmall := (Words.ofBigEndian high low).toNat_lt
        have hchecksum : checksum command payload = Words.ofBigEndian crcHigh crcLow := by
          rw [checksum, covered_of_fits fits, hcrc]
        refine ⟨command, payload, by show _ ≤ 65534; omega, ?_, by rw [hchecksum]⟩
        rw [bytes, hchecksum, covered_of_fits fits, Words.bigEndian_ofBigEndian]
        rfl
      · cases h
  · rintro ⟨command, payload, hsmall, rfl, rfl⟩
    exact decode?_bytes hsmall

end

theorem decode?_outcome (buffer : List UInt8) :
    (∃ frame, decode? buffer = .ok frame) ∨
      ∃ fault, decode? buffer = .error (.protocol fault) := by
  have hreading := reading_decode? buffer
  generalize decode? buffer = result at hreading
  cases hreading with
  | short few => exact .inr ⟨_, rfl⟩
  | unopened many other => exact .inr ⟨_, rfl⟩
  | misfit many wrong => exact .inr ⟨_, rfl⟩
  | whole fits =>
    rw [judge]
    split
    · exact .inl ⟨_, rfl⟩
    · exact .inr ⟨_, rfl⟩

/-! ## reading by index -/

/-- the reading of a buffer by index and slice, unless one of them leaves the buffer -/
def decodeChecked? (buffer : List UInt8) : Option (Except Error Frame) :=
  if buffer.length < overhead + 1 then some (.error (.protocol .frameTooShort))
  else do
    let start ← buffer[0]?
    if start ≠ startByte then some (.error (.protocol (.startByte start)))
    else
      let declared := (Words.ofBigEndian (← buffer[1]?) (← buffer[2]?)).toNat
      if declared = 0 ∨ buffer.length ≠ overhead + declared then
        some (.error (.protocol (.lengthField declared buffer.length)))
      else
        let received := Words.ofBigEndian (← buffer[3 + declared]?) (← buffer[4 + declared]?)
        let computed := Crc.ofBytes (← slice? buffer 1 (3 + declared)) Crc.initial
        if computed ≠ received then some (.error (.protocol (.checksum computed received)))
        else some (.ok ⟨← buffer[3]?, ← slice? buffer 4 (3 + declared), received⟩)

/-- **No index and no slice leaves the buffer.** -/
theorem decodeChecked?_eq (buffer : List UInt8) :
    decodeChecked? buffer = some (decode? buffer) := by
  have hreading := reading_decode? buffer
  generalize decode? buffer = result at hreading
  cases hreading with
  | short few => exact if_pos few
  | @unopened start rest many other =>
    rw [decodeChecked?, if_neg (by simp only [List.length_cons]; omega)]
    exact if_pos other
  | @misfit high low rest many wrong =>
    rw [decodeChecked?, if_neg (by simp only [List.length_cons]; omega)]
    exact if_pos wrong
  | @whole high low command crcHigh crcLow payload fits =>
    let buffer := startByte :: high :: low :: command :: (payload ++ [crcHigh, crcLow])
    have hsize : buffer.length = payload.length + 6 := by
      simp only [buffer, List.length_cons, List.length_append, List.length_nil]
    -- the indices and slices, in order
    have hcrcHigh : buffer[3 + (payload.length + 1)]? = some crcHigh := by
      rw [show 3 + (payload.length + 1) = payload.length + 4 by omega]
      show (payload ++ [crcHigh, crcLow])[payload.length]? = _
      rw [List.getElem?_append_right (Nat.le_refl _), Nat.sub_self]
      rfl
    have hcrcLow : buffer[4 + (payload.length + 1)]? = some crcLow := by
      rw [show 4 + (payload.length + 1) = payload.length + 1 + 4 by omega]
      show (payload ++ [crcHigh, crcLow])[payload.length + 1]? = _
      rw [List.getElem?_append_right (Nat.le_add_right ..), Nat.add_sub_cancel_left]
      rfl
    have hcovered : slice? buffer 1 (3 + (payload.length + 1)) =
        some (high :: low :: command :: payload) := by
      rw [show 3 + (payload.length + 1) = 1 + (payload.length + 3) by omega,
        slice?_of_le (by omega)]
      show some ((high :: low :: command :: payload ++ [crcHigh, crcLow]).take _) = _
      rw [List.take_left']
      simp only [List.length_cons]
    have hpayload : slice? buffer 4 (3 + (payload.length + 1)) = some payload := by
      rw [show 3 + (payload.length + 1) = 4 + payload.length by omega, slice?_of_le (by omega)]
      exact congrArg some List.take_left
    have hlong : ¬ buffer.length < overhead + 1 := by
      rw [hsize, overhead]
      omega
    have hdeclared : ¬ (payload.length + 1 = 0 ∨
        buffer.length ≠ overhead + (payload.length + 1)) := by
      rw [hsize, overhead]
      omega
    have hstart : buffer[0]? = some startByte := rfl
    have hhigh : buffer[1]? = some high := rfl
    have hlow : buffer[2]? = some low := rfl
    have hcommand : buffer[3]? = some command := rfl
    show decodeChecked? buffer = _
    rw [decodeChecked?, if_neg hlong]
    simp only [Option.bind_eq_bind, hstart, hhigh, hlow, hcommand, Option.bind_some, fits,
      hdeclared, ne_eq, not_true_eq_false, if_false, hcrcHigh, hcrcLow, hcovered, hpayload, judge]
    rw [ite_not, apply_ite some]

end Frame

/-! ## streams -/

namespace Decoder

variable {limit : Nat}

theorem feedAll_bytes {command : UInt8} {payload : List UInt8} (hlimit : 1 + payload.length ≤ limit)
    (hmax : limit ≤ Frame.maxLength) :
    (⟨limit, .start⟩ : Decoder).feedAll (Frame.bytes command payload) =
      (⟨limit, .start⟩, [⟨command, payload, Frame.checksum command payload⟩]) := by
  rw [feedAll_eq_watch, watch_bytes hlimit hmax]
  simp

/-- a stream that gives one frame holds one encoding -/
theorem bytes_of_feedAll {stream : List UInt8} {frame : Frame}
    (h : ((⟨limit, .start⟩ : Decoder).feedAll stream).2 = [frame]) :
    ∃ front command payload back, stream = front ++ Frame.bytes command payload ++ back ∧
      frame = ⟨command, payload, Frame.checksum command payload⟩ ∧ 1 + payload.length ≤ limit := by
  obtain ⟨messages, back, hstream, hgiven, hfits⟩ : Reads limit stream
      ((⟨limit, .start⟩ : Decoder).watch stream).2 := reads_watch (State.valid_start limit) stream
  have hframes : messages.map Message.frame = [frame] := by
    rw [feedAll_eq_watch, hgiven, List.filterMap_append, filterMap_given] at h
    simpa using h
  obtain ⟨message, rfl, rfl⟩ := List.map_eq_singleton_iff.mp hframes
  refine ⟨message.filler, message.command, message.payload, back, ?_, rfl,
    hfits message (List.mem_singleton_self message)⟩
  rw [hstream, List.flatMap_singleton]
  rfl

end Decoder

/-! ## the law -/

theorem Frame.toNat_length {command : UInt8} {payload : List UInt8} {crc : UInt16}
    (h : payload.length ≤ maxPayload) :
    (⟨command, payload, crc⟩ : Frame).length.toNat = 1 + payload.length :=
  toNat_lengthField h

/-- **A buffer is read as a frame just when it is an encoding**, and just when a decoder without a
limit gives that frame and no other for it and the frame is as long as the buffer.  Every other
buffer is a protocol error, and no buffer is read beyond its ends. -/
theorem Frame.reads_whole (buffer : List UInt8) (frame : Frame) :
    (decode? buffer = .ok frame ↔
      ∃ command payload, payload.length ≤ 65534 ∧ encode? command payload = .ok buffer ∧
        make? command payload = .ok frame) ∧
    (decode? buffer = .ok frame ↔
      ((Decoder.withLimit 65535).feedAll buffer).2 = [frame] ∧
        5 + frame.length.toNat = buffer.length) ∧
    ((∃ whole, decode? buffer = .ok whole) ∨
      ∃ fault, decode? buffer = .error (.protocol fault)) ∧
    decodeChecked? buffer = some (decode? buffer) := by
  refine ⟨?_, ?_, decode?_outcome buffer, decodeChecked?_eq buffer⟩
  · rw [decode?_eq_ok_iff]
    constructor
    · rintro ⟨command, payload, hsmall, rfl, rfl⟩
      exact ⟨command, payload, hsmall, encode?_of_le hsmall, make?_of_le hsmall⟩
    · rintro ⟨command, payload, hsmall, hbuffer, hframe⟩
      rw [encode?_of_le hsmall] at hbuffer
      rw [make?_of_le hsmall] at hframe
      exact ⟨command, payload, hsmall, (Except.ok.inj hbuffer).symm, (Except.ok.inj hframe).symm⟩
  · rw [decode?_eq_ok_iff]
    constructor
    · rintro ⟨command, payload, hsmall, rfl, rfl⟩
      have hmax : 1 + payload.length ≤ 65535 := by
        have : payload.length ≤ 65534 := hsmall
        omega
      refine ⟨congrArg Prod.snd (Decoder.feedAll_bytes hmax (Nat.le_refl _)), ?_⟩
      rw [toNat_length hsmall, length_bytes]
      omega
    · rintro ⟨hfed, hsize⟩
      obtain ⟨front, command, payload, back, rfl, rfl, hmax⟩ := Decoder.bytes_of_feedAll hfed
      have hsmall : payload.length ≤ maxPayload := by
        show _ ≤ 65534
        omega
      -- the size leaves no room around the encoding
      rw [toNat_length hsmall, List.length_append, List.length_append, length_bytes] at hsize
      obtain rfl := List.eq_nil_of_length_eq_zero (show front.length = 0 by omega)
      obtain rfl := List.eq_nil_of_length_eq_zero (show back.length = 0 by omega)
      exact ⟨command, payload, hsmall, by simp, rfl⟩

end CameraPower
