import CameraPower.Proofs.Decimals
import CameraPower.Proofs.DecoderSoundness
import CameraPower.Proofs.ListCuts
import CameraPower.Telemetry

/-!
# A battery reading loses nothing

The fields of a reading, written as they travel, are the bytes that it was read from; and what
clients are told of a reading is told of no other one.

* `Telemetry.ownBytes`, `bytes`  the fields of the battery, and all fields, as bytes;
* `ReadFrom`                     what a reading says of the payload behind it;
* `readFrom_unique`              there is no other reading of that payload;
* `values_of_lines`              lines of a key and a number give the numbers back;
* `loses_nothing`                from the payload to the text.
-/

namespace CameraPower

/-! ## numbers in two's complement -/

namespace Words

/-- the word that stands for a number in two's complement: its remainder by `2 ^ 16` -/
def twosComplement (n : Int) : UInt16 := UInt16.ofInt n

theorem twosComplement_toInt (n : Int16) : twosComplement n.toInt = n.toUInt16 := by
  apply UInt16.toNat_inj.mp
  have hremainder : (n.toInt % 2 ^ 16).toNat = n.toUInt16.toNat := by
    have hword := BitVec.toNat_ofInt (n := 16) n.toBitVec.toInt
    rw [BitVec.ofInt_toInt] at hword
    exact hword.symm
  show (UInt16.ofNat (n.toInt % 2 ^ 16).toNat).toNat = _
  rw [hremainder, UInt16.ofNat_toNat]

theorem twosComplement_toSigned (high low : UInt8) :
    bigEndian (twosComplement (toSigned (ofBigEndian high low)).toInt) = [high, low] := by
  rw [twosComplement_toInt]
  show bigEndian (ofBigEndian high low) = _
  exact bigEndian_ofBigEndian high low

theorem bigEndian_injective {word other : UInt16} (h : bigEndian word = bigEndian other) :
    word = other := by
  obtain ⟨hhigh, hrest⟩ := List.cons.inj h
  obtain ⟨hlow, -⟩ := List.cons.inj hrest
  rw [← ofBigEndian_bigEndian word, ← ofBigEndian_bigEndian other, hhigh, hlow]

theorem append_bigEndian_inj {front front' : List UInt8} {word other : UInt16}
    (h : front ++ bigEndian word = front' ++ bigEndian other) : front = front' ∧ word = other := by
  obtain ⟨hfront, hword⟩ := List.append_inj' h (by rw [length_bigEndian, length_bigEndian])
  exact ⟨hfront, bigEndian_injective hword⟩

theorem twosComplement_injective {n m : Int16}
    (h : twosComplement n.toInt = twosComplement m.toInt) : n = m := by
  rw [twosComplement_toInt, twosComplement_toInt] at h
  exact congrArg UInt16.toInt16 h

end Words

namespace Telemetry

open Words

/-! ## a reading as bytes -/

/-- the battery's own fields -/
def ownBytes (t : Telemetry) : List UInt8 :=
  [t.capacityPercent, t.stateOfHealthPercent] ++ bigEndian t.voltage ++
    bigEndian (twosComplement t.current.toInt) ++ bigEndian t.hiResCapacity ++
    bigEndian t.hiResStateOfCharge

/-- the fields of the camera and of its board -/
def cameraBytes (t : Telemetry) : List UInt8 :=
  bigEndian t.voltageCam ++ bigEndian (twosComplement t.currentCam.toInt) ++
    bigEndian (twosComplement t.boardTemperature.toInt) ++ [t.flags, t.fanPwm]

/-- all fields -/
def bytes (t : Telemetry) : List UInt8 := t.ownBytes ++ t.cameraBytes

theorem length_ownBytes (t : Telemetry) : t.ownBytes.length = 10 := by
  simp [ownBytes]

theorem length_cameraBytes (t : Telemetry) : t.cameraBytes.length = 8 := by
  simp [cameraBytes]

/-- the payload is that of an extended reply, and all fields are in -/
def IsExtended (command : UInt8) (payload : List UInt8) : Prop :=
  command = Command.getDataExt ∧ extendedSize ≤ payload.length

/-- What a reading says of the payload that it was read from. -/
structure ReadFrom (command : UInt8) (payload : List UInt8) (t : Telemetry) : Prop where
  own : t.ownBytes = payload.take baseSize
  extended : IsExtended command payload → t.bytes = payload.take extendedSize
  plain : ¬ IsExtended command payload →
    t.voltageCam = 0 ∧ t.currentCam = 0 ∧ t.boardTemperature = 0 ∧ t.flags = 0 ∧ t.fanPwm = 0

/-- a payload that is too short is refused, and any other is read -/
theorem decode?_cases (command : UInt8) (payload : List UInt8) :
    (payload.length < baseSize ∧ ∃ error, decode? command payload = .error error) ∨
      (baseSize ≤ payload.length ∧
        ∃ t, decode? command payload = .ok t ∧ ReadFrom command payload t) := by
  unfold decode?
  split
  · next b0 b1 b2 b3 b4 b5 b6 b7 b8 b9 rest =>
    refine Or.inr ⟨Nat.le_add_left .., ?_⟩
    simp only
    split
    · next c0 c1 c2 c3 c4 c5 c6 c7 more hcommand =>
      -- all fields are in
      have hextended : IsExtended command (b0 :: b1 :: b2 :: b3 :: b4 :: b5 :: b6 :: b7 :: b8 :: b9 ::
          c0 :: c1 :: c2 :: c3 :: c4 :: c5 :: c6 :: c7 :: more) :=
        ⟨eq_of_beq hcommand, Nat.le_add_left ..⟩
      refine ⟨_, rfl, ?_, ?_, fun hplain => absurd hextended hplain⟩
      · simp [ownBytes, Words.bigEndian_ofBigEndian, Words.twosComplement_toSigned, baseSize]
      · intro _
        simp [bytes, ownBytes, cameraBytes, Words.bigEndian_ofBigEndian,
          Words.twosComplement_toSigned, extendedSize]
    · next rest _ _ hplain =>
      refine ⟨_, rfl, ?_, ?_, fun _ => ⟨rfl, rfl, rfl, rfl, rfl⟩⟩
      · simp [ownBytes, Words.bigEndian_ofBigEndian, Words.twosComplement_toSigned, baseSize]
      · rintro ⟨hcommand, hsize⟩
        have hcamera : 8 ≤ rest.length := by simpa [extendedSize] using hsize
        match rest, hcamera with
        | c0 :: c1 :: c2 :: c3 :: c4 :: c5 :: c6 :: c7 :: more, _ =>
          exact (hplain c0 c1 c2 c3 c4 c5 c6 c7 more (beq_iff_eq.mpr hcommand) rfl).elim
  · next hshort =>
    refine Or.inl ⟨?_, _, rfl⟩
    apply Nat.lt_of_not_le
    intro hlong
    match payload, hlong with
    | b0 :: b1 :: b2 :: b3 :: b4 :: b5 :: b6 :: b7 :: b8 :: b9 :: rest, _ =>
      exact hshort b0 b1 b2 b3 b4 b5 b6 b7 b8 b9 rest rfl

theorem readFrom_of_ok {command : UInt8} {payload : List UInt8} {t : Telemetry}
    (h : decode? command payload = .ok t) : ReadFrom command payload t := by
  rcases decode?_cases command payload with ⟨-, error, herror⟩ | ⟨-, t', ht', hreading⟩
  · rw [herror] at h
    cases h
  · rw [ht'] at h
    cases h
    exact hreading

theorem ownBytes_injective {t t' : Telemetry} (h : t.ownBytes = t'.ownBytes) :
    t.capacityPercent = t'.capacityPercent ∧ t.stateOfHealthPercent = t'.stateOfHealthPercent ∧
      t.voltage = t'.voltage ∧ t.current = t'.current ∧ t.hiResCapacity = t'.hiResCapacity ∧
      t.hiResStateOfCharge = t'.hiResStateOfCharge := by
  obtain ⟨h, hcharge⟩ := append_bigEndian_inj h
  obtain ⟨h, hcapacity⟩ := append_bigEndian_inj h
  obtain ⟨h, hcurrent⟩ := append_bigEndian_inj h
  obtain ⟨h, hvoltage⟩ := append_bigEndian_inj h
  obtain ⟨hpercent, h⟩ := List.cons.inj h
  exact ⟨hpercent, (List.cons.inj h).1, hvoltage, twosComplement_injective hcurrent, hcapacity,
    hcharge⟩

theorem cameraBytes_injective {t t' : Telemetry} (h : t.cameraBytes = t'.cameraBytes) :
    t.voltageCam = t'.voltageCam ∧ t.currentCam = t'.currentCam ∧
      t.boardTemperature = t'.boardTemperature ∧ t.flags = t'.flags ∧ t.fanPwm = t'.fanPwm := by
  obtain ⟨h, hlast⟩ := List.append_inj' h rfl
  obtain ⟨h, htemperature⟩ := append_bigEndian_inj h
  obtain ⟨hvoltage, hcurrent⟩ := append_bigEndian_inj h
  obtain ⟨hflags, hlast⟩ := List.cons.inj hlast
  exact ⟨bigEndian_injective hvoltage, twosComplement_injective hcurrent,
    twosComplement_injective htemperature, hflags, (List.cons.inj hlast).1⟩

/-- Of two payloads the same bytes count, and they are the same in both. -/
structure Alike (command : UInt8) (payload other : List UInt8) : Prop where
  kind : IsExtended command payload ↔ IsExtended command other
  own : other.take baseSize = payload.take baseSize
  all : IsExtended command payload → other.take extendedSize = payload.take extendedSize

/-- **A reading is all that its payload says**: payloads in which the bytes that count are the same
have the same reading. -/
theorem readFrom_unique {command : UInt8} {payload other : List UInt8} {t t' : Telemetry}
    (halike : Alike command payload other) (h : ReadFrom command payload t)
    (h' : ReadFrom command other t') : t' = t := by
  obtain ⟨hkind, hown, hall⟩ := halike
  obtain ⟨ha, hb, hc, hd, he, hf⟩ := ownBytes_injective (h'.own.trans (hown.trans h.own.symm))
  have hcamera : t'.voltageCam = t.voltageCam ∧ t'.currentCam = t.currentCam ∧
      t'.boardTemperature = t.boardTemperature ∧ t'.flags = t.flags ∧ t'.fanPwm = t.fanPwm := by
    by_cases hextended : IsExtended command payload
    · have hbytes : t'.bytes = t.bytes :=
        (h'.extended (hkind.mp hextended)).trans ((hall hextended).trans (h.extended hextended).symm)
      have hlength : t'.cameraBytes.length = t.cameraBytes.length := by
        rw [length_cameraBytes, length_cameraBytes]
      exact cameraBytes_injective (List.append_inj' hbytes hlength).2
    · obtain ⟨h1, h2, h3, h4, h5⟩ := h.plain hextended
      obtain ⟨h1', h2', h3', h4', h5'⟩ := h'.plain fun hother => hextended (hkind.mpr hother)
      exact ⟨h1'.trans h1.symm, h2'.trans h2.symm, h3'.trans h3.symm, h4'.trans h4.symm,
        h5'.trans h5.symm⟩
  obtain ⟨hg, hh, hi, hj, hk⟩ := hcamera
  cases t
  cases t'
  simp_all

/-! ## a reading as text -/

theorem values_injective {t t' : Telemetry} (h : t.values = t'.values) : t = t' := by
  cases t
  cases t'
  simpa [values, UInt8.toNat_inj, UInt16.toNat_inj, Int16.toInt_inj] using h

/-- the characters of a line -/
def line (key : String) (value : Int) : List Char :=
  key.toList ++ (' ' :: (Numeral.signed value ++ ['\n']))

theorem toList_block (t : Telemetry) :
    t.block.toList = (List.zipWith line blockKeys t.values).flatten := by
  rw [block, String.toList_join, List.flatMap_def, List.map_zipWith]
  congr
  funext key value
  simp [line, Numeral.ofInt]

/-- the end of a line is the first of its kind, so that the number in front of it can be told -/
theorem value_of_line {key : String} {value value' : Int} {rest rest' : List Char}
    (h : line key value ++ rest = line key value' ++ rest') : value = value' ∧ rest = rest' := by
  have hquiet : ∀ n : Int, ∀ c ∈ Numeral.signed n, c ≠ '\n' := by
    intro n c hmem hnewline
    rcases Numeral.mem_signed hmem with hminus | hdigit
    · exact absurd (hnewline.symm.trans hminus) (by decide)
    · exact absurd (hnewline ▸ hdigit) (by decide)
  unfold line at h
  simp only [List.append_assoc, List.cons_append, List.nil_append] at h
  have hnumber := (List.cons.inj (List.append_cancel_left h)).2
  have hrest := (first_unique hnumber (hquiet value) (not_not.mpr rfl) (hquiet value')
    (not_not.mpr rfl)).2
  rw [hrest] at hnumber
  exact ⟨Numeral.signed_injective (List.append_cancel_right hnumber), hrest⟩

/-- **Lines of a key and a number give the numbers back.** -/
theorem values_of_lines {keys : List String} {values values' : List Int}
    (hlength : values.length = keys.length) (hlength' : values'.length = keys.length)
    (h : (List.zipWith line keys values).flatten = (List.zipWith line keys values').flatten) :
    values = values' := by
  induction keys generalizing values values' with
  | nil => rw [List.length_eq_zero_iff.mp hlength, List.length_eq_zero_iff.mp hlength']
  | cons key keys ih =>
    obtain ⟨value, values, rfl⟩ := List.exists_cons_of_length_eq_add_one hlength
    obtain ⟨value', values', rfl⟩ := List.exists_cons_of_length_eq_add_one hlength'
    obtain ⟨rfl, hrest⟩ := value_of_line h
    rw [ih (Nat.succ.inj hlength) (Nat.succ.inj hlength') hrest]

theorem block_injective {t t' : Telemetry} (h : t.block = t'.block) : t = t' := by
  have hkeys : ∀ t : Telemetry, t.values.length = blockKeys.length := fun _ => rfl
  apply values_injective
  apply values_of_lines (hkeys t) (hkeys t')
  rw [← toList_block, ← toList_block, h]

/-! ## the law -/

/-- What becomes of a payload when a reading is made of it. -/
structure Faithful (command : UInt8) (payload : List UInt8) : Prop where
  refused : (∃ error, decode? command payload = .error error) ↔ payload.length < 10
  readBack : ∀ t, decode? command payload = .ok t → ReadFrom command payload t
  /-- bytes beyond those that count have no effect -/
  beyond : ∀ t other, decode? command payload = .ok t → Alike command payload other →
    decode? command other = .ok t

/-- **From the payload to the text nothing is lost.**  A payload is refused when it is shorter than
the battery's own fields.  Otherwise its reading, written back as bytes, is the payload as far as it
counts: all fields of an extended reply that has them all, and only the battery's own fields of any
other, where the fields of the camera are zero.  And what clients are told of two readings differs
when the readings do. -/
theorem loses_nothing (command : UInt8) (payload : List UInt8) :
    Faithful command payload ∧ ∀ t t' : Telemetry, t.block = t'.block → t = t' := by
  refine ⟨⟨?_, fun t => readFrom_of_ok, ?_⟩, fun t t' => block_injective⟩
  · rcases decode?_cases command payload with ⟨hshort, herror⟩ | ⟨hlong, t, hread, -⟩
    · exact iff_of_true herror hshort
    · refine iff_of_false ?_ (Nat.not_lt.mpr hlong)
      rintro ⟨error, herror⟩
      rw [hread] at herror
      cases herror
  · intro t other hread halike
    have hreading := readFrom_of_ok hread
    rcases decode?_cases command other with ⟨hshort, -⟩ | ⟨-, t', hread', hreading'⟩
    · -- the bytes that count are all of the other payload, which are too few
      have hsize : t.ownBytes.length = other.length := by
        rw [hreading.own, ← halike.own, List.length_take, Nat.min_eq_right (Nat.le_of_lt hshort)]
      rw [length_ownBytes] at hsize
      exact absurd hshort (Nat.not_lt.mpr (Nat.le_of_eq hsize))
    · rw [hread', readFrom_unique halike hreading hreading']

end Telemetry
end CameraPower
