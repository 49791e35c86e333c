import CameraPower.Proofs.Checksum
import CameraPower.Proofs.WholeFrames

/-!
# Damage to a frame is noticed

Bytes that come in place of those of an encoding are refused when the damage is short: one byte, or
two next to each other, unless these are the last byte of the body and the first of the checksum.
Bytes that are taken for a frame are an encoding themselves, so all that is to be shown is that two
encodings of one size differ in more than that.

* `AgreeBut`                bytes that differ in a few places next to each other;
* `Crc.eq_of_agreeBut`      what has the same checksum does not differ in two bytes only;
* `Frame.eq_of_agreeBut`    nor do two encodings;
* `Frame.detects_damage`    the law.
-/

namespace CameraPower

/-! ## bytes in place of others -/

/-- As many bytes as were sent came, the same but for `width` of them from index `first` on. -/
structure AgreeBut (first width : Nat) (sent came : List UInt8) : Prop where
  size : came.length = sent.length
  outside : ∀ i, i < first ∨ first + width ≤ i → came[i]? = sent[i]?

namespace AgreeBut

variable {first width : Nat} {sent came front front' back back' : List UInt8}

theorem replaced (front was is back : List UInt8) (hsize : is.length = was.length) :
    AgreeBut front.length was.length (front ++ (was ++ back)) (front ++ (is ++ back)) := by
  refine ⟨by simp [hsize], fun i hi => ?_⟩
  rcases hi with hfront | hback
  · rw [List.getElem?_append_left hfront, List.getElem?_append_left hfront]
  · rw [List.getElem?_append_right (by omega), List.getElem?_append_right (by omega),
      List.getElem?_append_right (by omega), List.getElem?_append_right (by omega), hsize]

theorem mono {wider : Nat} (h : AgreeBut first width sent came) (hwidth : width ≤ wider) :
    AgreeBut first wider sent came :=
  ⟨h.size, fun i hi => h.outside i (by omega)⟩

theorem eq_of_size_le (h : AgreeBut first width sent came) (hsize : sent.length ≤ first) :
    came = sent := by
  refine List.ext_getElem? fun i => ?_
  by_cases hi : i < first
  · exact h.outside i (.inl hi)
  · rw [List.getElem?_eq_none (by rw [h.size]; omega), List.getElem?_eq_none (by omega)]

theorem of_append_left (h : AgreeBut first width (front ++ back) (front' ++ back'))
    (hsize : front'.length = front.length) : AgreeBut first width front front' := by
  refine ⟨hsize, fun i hi => ?_⟩
  by_cases hlt : i < front.length
  · have hsame := h.outside i hi
    rwa [List.getElem?_append_left hlt, List.getElem?_append_left (by omega)] at hsame
  · rw [List.getElem?_eq_none (by omega), List.getElem?_eq_none (by omega)]

theorem of_append_right (h : AgreeBut first width (front ++ back) (front' ++ back'))
    (hsize : front'.length = front.length) :
    AgreeBut (first - front.length) width back back' := by
  refine ⟨?_, fun i hi => ?_⟩
  · have := h.size
    simp only [List.length_append] at this
    omega
  · have hsame := h.outside (front.length + i) (by omega)
    rwa [List.getElem?_append_right (by omega), List.getElem?_append_right (by omega), hsize,
      Nat.add_sub_cancel_left] at hsame

theorem eq_of_append_right (h : AgreeBut first width (front ++ back) (front' ++ back'))
    (hsize : front'.length = front.length) (hbehind : first + width ≤ front.length) :
    back' = back := by
  refine List.ext_getElem? fun i => ?_
  have hsame := h.outside (front.length + i) (by omega)
  rwa [List.getElem?_append_right (by omega), List.getElem?_append_right (by omega), hsize,
    Nat.add_sub_cancel_left] at hsame

end AgreeBut

/-! ## checksums -/

/-- What differs in no more than two bytes next to each other has different checksums. -/
theorem Crc.eq_of_agreeBut {first : Nat} {data data' : List UInt8} {seed : UInt16}
    (h : AgreeBut first 2 data data') (hcrc : ofBytes data' seed = ofBytes data seed) :
    data' = data := by
  -- the bytes in front of the damage are passed one by one; what is behind it is the same
  induction data generalizing data' first seed with
  | nil => exact List.eq_nil_of_length_eq_zero h.size
  | cons byte rest ih =>
    obtain ⟨byte', rest', rfl⟩ := List.exists_cons_of_length_eq_add_one h.size
    cases first with
    | succ first =>
      obtain rfl : byte' = byte := Option.some.inj (h.outside 0 (.inl (Nat.succ_pos first)))
      have happend : AgreeBut (first + 1) 2 ([byte'] ++ rest) ([byte'] ++ rest') := h
      rw [ih (happend.of_append_right rfl) hcrc]
    | zero =>
      cases rest with
      | nil =>
        obtain rfl := List.eq_nil_of_length_eq_zero (Nat.succ.inj h.size)
        rw [ofBytes_cons, ofBytes_cons] at hcrc
        rw [byte_of_step hcrc]
      | cons second more =>
        obtain ⟨second', more', rfl⟩ :=
          List.exists_cons_of_length_eq_add_one (Nat.succ.inj h.size)
        have happend : AgreeBut 0 2 ([byte, second] ++ more) ([byte', second'] ++ more') := h
        obtain rfl : more' = more := happend.eq_of_append_right rfl (Nat.le_refl 2)
        rw [ofBytes_cons, ofBytes_cons, ofBytes_cons, ofBytes_cons] at hcrc
        obtain ⟨rfl, rfl⟩ := bytes_of_step_step (ofBytes_inj hcrc)
        rfl

namespace Frame

/-! ## encodings -/

/-- Two encodings of one size are the same if they differ in no more than two bytes next to each
other, and these are both in front of the checksum, or both in it. -/
theorem eq_of_agreeBut {command command' : UInt8} {payload payload' : List UInt8}
    {first width : Nat}
    (h : AgreeBut first width (bytes command payload) (bytes command' payload'))
    (hwidth : width ≤ 2)
    (hside : first + width ≤ payload.length + 4 ∨ payload.length + 4 ≤ first) :
    bytes command' payload' = bytes command payload := by
  have hsize : (startByte :: covered command payload).length = payload.length + 4 := by
    simp [covered]
    omega
  have hsize' : (startByte :: covered command' payload').length =
      (startByte :: covered command payload).length := by
    have := h.size
    rw [length_bytes, length_bytes] at this
    rw [hsize]
    simp [covered]
    omega
  have hfront : AgreeBut first width (startByte :: covered command payload)
      (startByte :: covered command' payload') := h.of_append_left hsize'
  have hcovered : covered command' payload' = covered command payload := by
    rcases hside with hbefore | hbehind
    · -- the checksums that came and were sent are the same
      have hword : Words.bigEndian (checksum command' payload') =
          Words.bigEndian (checksum command payload) :=
        h.eq_of_append_right hsize' (by rw [hsize]; exact hbefore)
      have hcrc : checksum command' payload' = checksum command payload := by
        rw [← Words.ofBigEndian_bigEndian (checksum command' payload'),
          ← Words.ofBigEndian_bigEndian (checksum command payload)]
        injection hword with hhigh hlow
        rw [hhigh, (List.cons.inj hlow).1]
      have hbody : AgreeBut first width ([startByte] ++ covered command payload)
          ([startByte] ++ covered command' payload') := hfront
      exact Crc.eq_of_agreeBut ((hbody.of_append_right rfl).mono hwidth) hcrc
    · exact (List.cons.inj (hfront.eq_of_size_le (by rw [hsize]; exact hbehind))).2
  rw [bytes, bytes, checksum, checksum, hcovered]

/-! ## the law -/

/-- **Damage to a frame is noticed**: to one byte of its encoding, or to two next to each other,
unless the first of these is the last byte of the body and the second the high byte of the
checksum. -/
theorem detects_damage (command : UInt8) {payload : List UInt8} (hsize : payload.length ≤ 65534) :
    ∃ sent, encode? command payload = .ok sent ∧ ∀ came first, came ≠ sent →
      AgreeBut first 1 sent came ∨ AgreeBut first 2 sent came ∧ first ≠ payload.length + 3 →
      ∃ fault, decode? came = .error (.protocol fault) := by
  refine ⟨bytes command payload, encode?_of_le hsize, fun came first hdamaged hplace => ?_⟩
  refine (decode?_outcome came).resolve_left ?_
  rintro ⟨frame, hframe⟩
  obtain ⟨command', payload', -, rfl, -⟩ := (decode?_eq_ok_iff came frame).mp hframe
  rcases hplace with hone | ⟨htwo, hborder⟩
  · exact hdamaged (eq_of_agreeBut hone (by decide) (by omega))
  · exact hdamaged (eq_of_agreeBut htwo (by decide) (by omega))

/-- two bytes of a payload, and the last byte of a payload alone -/
theorem detects_damage_in_payload :
    let payload : List UInt8 := [1, 2, 3, 4]
    payload.length ≤ 65534 ∧ ∃ sent, encode? 0x10 payload = .ok sent ∧
      (∃ fault, decode? (sent.take 4 ++ ([0x5A, 0] ++ sent.drop 6)) = .error (.protocol fault)) ∧
      ∃ fault, decode? (sent.take 7 ++ ([0] ++ sent.drop 8)) = .error (.protocol fault) := by
  intro payload
  have hsize : payload.length ≤ 65534 := by decide
  obtain ⟨sent, hsent, hdamage⟩ := detects_damage 0x10 hsize
  obtain rfl : bytes 0x10 [1, 2, 3, 4] = sent := Except.ok.inj hsent
  let sent := bytes 0x10 [1, 2, 3, 4]
  have htwo : AgreeBut 4 2 (sent.take 4 ++ ([1, 2] ++ sent.drop 6))
      (sent.take 4 ++ ([0x5A, 0] ++ sent.drop 6)) :=
    .replaced (sent.take 4) [1, 2] [0x5A, 0] (sent.drop 6) rfl
  have hone : AgreeBut 7 1 (sent.take 7 ++ ([4] ++ sent.drop 8))
      (sent.take 7 ++ ([0] ++ sent.drop 8)) :=
    .replaced (sent.take 7) [4] [0] (sent.drop 8) rfl
  have htwo' : sent.take 4 ++ ([0x5A, 0] ++ sent.drop 6) ≠ sent :=
    fun h => absurd (congrArg (·[4]?) h) (show some 0x5A ≠ some (1 : UInt8) by decide)
  have hone' : sent.take 7 ++ ([0] ++ sent.drop 8) ≠ sent :=
    fun h => absurd (congrArg (·[7]?) h) (show some 0 ≠ some (4 : UInt8) by decide)
  exact ⟨hsize, sent, hsent, hdamage _ 4 htwo' (.inr ⟨htwo, by decide⟩),
    hdamage _ 7 hone' (.inl hone)⟩

/-- the last byte of the body and the high byte of the checksum can change unnoticed -/
example : bytes 4 [] = [0x5A, 0, 1, 4, 0x93, 0x71] ∧
    decode? [0x5A, 0, 1, 8, 0x96, 0x71] = .ok ⟨8, [], 0x9671⟩ := by decide +kernel

end Frame

end CameraPower
