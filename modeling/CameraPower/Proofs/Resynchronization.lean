import CameraPower.Proofs.Checksum
import CameraPower.Proofs.DecoderSoundness

/-!
# What becomes of the frame behind a damaged one

One byte of an encoding arrives wrong, and an intact encoding follows.  A decoder reads each byte
once, so it finds the second frame just when the damaged bytes are `Lost`: they give nothing, and
leave it waiting for a start byte.

* `Lost`                 bytes that give nothing and leave the decoder waiting;
* `lost_iff_dropped`     whether bytes behind a start byte are lost, by the length they declare;
* `lost_set_iff`         a wrong byte behind the length field;
* `watch_behind_iff`, `feedAll_behind`  an intact encoding behind bytes that are lost;
* `resynchronises_iff`   when the intact frame is found.
-/

namespace CameraPower.Decoder

variable {limit : Nat}

/-! ## bytes that are lost -/

/-- The bytes give nothing, and leave a decoder that was in this state waiting for a start byte. -/
def Lost (limit : Nat) (state : State) (bytes : List UInt8) : Prop :=
  (⟨limit, state⟩ : Decoder).watch bytes =
    (⟨limit, .start⟩, List.replicate bytes.length none)

theorem lost_nil_iff (state : State) : Lost limit state [] ↔ state = .start := by
  simp [Lost, watch_nil]

theorem lost_cons_iff (state : State) (byte : UInt8) (rest : List UInt8) :
    Lost limit state (byte :: rest) ↔
      (state.next limit byte).2 = none ∧ Lost limit (state.next limit byte).1 rest := by
  unfold Lost
  rw [watch_state_cons, List.length_cons, List.replicate_succ, Prod.ext_iff, Prod.ext_iff]
  simp only [List.cons.injEq, and_left_comm]

theorem lost_of_not_mem {bytes : List UInt8} (h : Frame.startByte ∉ bytes) :
    Lost limit .start bytes :=
  watch_filler h

/-- a first part that gives nothing says nothing yet -/
theorem lost_append_iff {state next : State} {front : List UInt8}
    (h : (⟨limit, state⟩ : Decoder).watch front =
      (⟨limit, next⟩, List.replicate front.length none)) (back : List UInt8) :
    Lost limit state (front ++ back) ↔ Lost limit next back := by
  unfold Lost
  rw [watch_append, h, List.length_append, ← List.replicate_append_replicate, Prod.ext_iff,
    Prod.ext_iff]
  simp only [List.append_cancel_left_eq]

/-- bytes that end within a body leave the decoder within it -/
theorem not_lost_body {length : Nat} {received : Array UInt8} (crc : UInt16) {bytes : List UInt8}
    (h : received.size + bytes.length < length) :
    ¬ Lost limit (.body length received crc) bytes := by
  induction bytes generalizing received crc with
  | nil =>
    rw [lost_nil_iff]
    exact fun hstate => by cases hstate
  | cons byte rest ih =>
    rw [List.length_cons] at h
    have hnext : (State.body length received crc).next limit byte =
        (.body length (received.push byte) (Crc.step crc byte), none) :=
      if_neg (by rw [Array.size_push]; omega)
    rw [lost_cons_iff, hnext]
    rintro ⟨-, hrest⟩
    exact ih _ (by rw [Array.size_push]; omega) hrest

theorem lost_crcLow_iff {received : Array UInt8} (hne : 0 < received.size) (crc : UInt16)
    (byte : UInt8) (rest : List UInt8) :
    Lost limit (.crcLow received crc) (byte :: rest) ↔
      byte ≠ crc.toUInt8 ∧ Lost limit .start rest := by
  rw [lost_cons_iff]
  refine and_congr_left fun _ => ?_
  obtain ⟨command, payload, hreceived⟩ : ∃ command payload,
      received.toList = command :: payload := by
    refine List.exists_cons_of_length_pos ?_
    rw [Array.length_toList]
    exact hne
  show (if byte = crc.toUInt8 then complete received crc else none) = none ↔ _
  simp [complete, hreceived]

/-! ## behind a length field -/

/-- What stands behind a start byte and a length field with these two bytes is lost.  A length that
is refused leaves all of it to be looked through.  Any other length takes its body out of it and
compares the next byte with the checksum, and the one behind it if that was right; what is left of
it after the first wrong byte is looked through. -/
def Dropped (limit : Nat) (high low : UInt8) (behind : List UInt8) : Prop :=
  let declared := (Words.ofBigEndian high low).toNat
  let crc := Crc.ofBytes (high :: low :: behind.take declared) Crc.initial
  if declared = 0 ∨ limit < declared then Lost limit .start behind
  else
    match behind.drop declared with
    | [] => False
    | [first] => first ≠ (crc >>> 8).toUInt8
    | first :: second :: rest =>
      if first = (crc >>> 8).toUInt8 then second ≠ crc.toUInt8 ∧ Lost limit .start rest
      else Lost limit .start (second :: rest)

theorem lost_crcHigh_iff {received : Array UInt8} (hne : 0 < received.size) (crc : UInt16)
    (bytes : List UInt8) :
    Lost limit (.crcHigh received crc) bytes ↔
      match bytes with
      | [] => False
      | [first] => first ≠ (crc >>> 8).toUInt8
      | first :: second :: rest =>
        if first = (crc >>> 8).toUInt8 then second ≠ crc.toUInt8 ∧ Lost limit .start rest
        else Lost limit .start (second :: rest) := by
  match bytes with
  | [] =>
    rw [lost_nil_iff]
    exact iff_of_false (fun hstate => by cases hstate) id
  | first :: rest =>
    rw [lost_cons_iff]
    by_cases hfirst : first = (crc >>> 8).toUInt8
    · have hnext : (State.crcHigh received crc).next limit first = (.crcLow received crc, none) :=
        if_pos hfirst
      rw [hnext]
      cases rest with
      | nil => simp [hfirst, lost_nil_iff]
      | cons second rest => simp [hfirst, lost_crcLow_iff hne]
    · have hnext : (State.crcHigh received crc).next limit first = (.start, none) :=
        if_neg hfirst
      rw [hnext]
      cases rest with
      | nil => simp [hfirst, lost_nil_iff]
      | cons second rest => simp [hfirst]

theorem lost_iff_dropped (high low : UInt8) (behind : List UInt8) :
    Lost limit .start (Frame.startByte :: high :: low :: behind) ↔
      Dropped limit high low behind := by
  let declared := (Words.ofBigEndian high low).toNat
  let opened := Crc.step (Crc.step Crc.initial high) low
  have hstart : (State.start).next limit Frame.startByte = (.lengthHigh, none) := rfl
  have hhigh : (State.lengthHigh).next limit high =
      (.lengthLow high (Crc.step Crc.initial high), none) := rfl
  rw [lost_cons_iff, hstart, lost_cons_iff, hhigh, lost_cons_iff]
  simp only [true_and]
  unfold Dropped
  by_cases hrefused : declared = 0 ∨ limit < declared
  · have hlow : (State.lengthLow high (Crc.step Crc.initial high)).next limit low =
        (.start, none) := if_pos hrefused
    rw [hlow, if_pos hrefused]
    simp only [true_and]
  · have hlow : (State.lengthLow high (Crc.step Crc.initial high)).next limit low =
        (.body declared #[] opened, none) := if_neg hrefused
    rw [hlow, if_neg hrefused]
    simp only [true_and]
    by_cases hlong : behind.length < declared
    · have hnone : behind.drop declared = [] := List.drop_of_length_le (Nat.le_of_lt hlong)
      rw [hnone]
      exact iff_of_false (not_lost_body opened (by simpa using hlong)) id
    · have htake : (behind.take declared).length = declared := by
        rw [List.length_take]
        omega
      have hbody : (⟨limit, .body declared #[] opened⟩ : Decoder).watch (behind.take declared) =
          (⟨limit, .crcHigh (#[] ++ (behind.take declared).toArray)
              (Crc.ofBytes (behind.take declared) opened)⟩,
            List.replicate (behind.take declared).length none) :=
        watch_body (List.length_pos_iff.mp (by omega)) (by simpa using htake) opened
      have hsize : 0 < (#[] ++ (behind.take declared).toArray).size := by
        rw [Array.empty_append, List.size_toArray]
        omega
      conv => lhs; rw [← List.take_append_drop declared behind]
      rw [lost_append_iff hbody, lost_crcHigh_iff hsize]
      rfl

/-! ## a wrong byte behind the length field -/

/-- The bytes of a frame whose length field is right, with a checksum that does not fit: they are
lost, unless the checksum's high byte is wrong already and its low byte opens another frame. -/
theorem lost_misfit_iff {length : UInt16} (hpos : 0 < length.toNat) (hlimit : length.toNat ≤ limit)
    {body : List UInt8} (hbody : body.length = length.toNat) {crc : UInt16}
    (hcrc : crc = Crc.ofBytes (Words.bigEndian length ++ body) Crc.initial) {first second : UInt8}
    (hmisfit : ¬ (first = (crc >>> 8).toUInt8 ∧ second = crc.toUInt8)) :
    Lost limit .start (Frame.startByte :: (Words.bigEndian length ++ body) ++ [first, second]) ↔
      ¬ (first ≠ (crc >>> 8).toUInt8 ∧ second = Frame.startByte) := by
  have hone : Lost limit .start [second] ↔ second ≠ Frame.startByte := by
    rw [lost_cons_iff, lost_nil_iff]
    simp only [State.next, true_and]
    split <;> simp_all
  have hparts : Frame.startByte :: (Words.bigEndian length ++ body) ++ [first, second] =
      Frame.startByte :: (length >>> 8).toUInt8 :: length.toUInt8 :: (body ++ [first, second]) := rfl
  have htake : (body ++ [first, second]).take length.toNat = body := by
    rw [← hbody, List.take_left]
  have hdrop : (body ++ [first, second]).drop length.toNat = [first, second] := by
    rw [← hbody, List.drop_left]
  have hcovered : Crc.ofBytes ((length >>> 8).toUInt8 :: length.toUInt8 :: body) Crc.initial = crc :=
    hcrc.symm
  rw [hparts, lost_iff_dropped, Dropped, Words.ofBigEndian_bigEndian, htake, hdrop, hcovered,
    if_neg (by omega)]
  show (if first = (crc >>> 8).toUInt8 then _ else _) ↔ _
  by_cases hfirst : first = (crc >>> 8).toUInt8
  · rw [if_pos hfirst, lost_nil_iff]
    simp only [hfirst, true_and] at hmisfit
    simp [hfirst, hmisfit]
  · rw [if_neg hfirst, hone]
    simp [hfirst]

theorem eq_of_bigEndian {crc crc' : UInt16} (hhigh : (crc >>> 8).toUInt8 = (crc' >>> 8).toUInt8)
    (hlow : crc.toUInt8 = crc'.toUInt8) : crc = crc' := by
  rw [← Words.ofBigEndian_bigEndian crc, hhigh, hlow, Words.ofBigEndian_bigEndian]

/-- A wrong byte in the command, the payload or the checksum is noticed. -/
theorem misfit_of_set {command : UInt8} {payload : List UInt8} {index : Nat} {value : UInt8}
    (hindex : 3 ≤ index) (hlast : index < (Frame.bytes command payload).length)
    (hvalue : (Frame.bytes command payload)[index]? ≠ some value) :
    ∃ body first second, body.length = 1 + payload.length ∧
      (Frame.bytes command payload).set index value =
        Frame.startByte :: (Words.bigEndian (Frame.lengthField payload) ++ body) ++
          [first, second] ∧
      let crc := Crc.ofBytes (Words.bigEndian (Frame.lengthField payload) ++ body) Crc.initial
      ¬ (first = (crc >>> 8).toUInt8 ∧ second = crc.toUInt8) := by
  obtain ⟨place, rfl⟩ : ∃ place, index = place + 3 := ⟨index - 3, by omega⟩
  let length := Frame.lengthField payload
  let sent := Frame.checksum command payload
  let body := command :: payload
  have hbytes : Frame.bytes command payload = Frame.startByte :: (length >>> 8).toUInt8 ::
      length.toUInt8 :: (body ++ [(sent >>> 8).toUInt8, sent.toUInt8]) := rfl
  have hset : (Frame.bytes command payload).set (place + 3) value = Frame.startByte ::
      (length >>> 8).toUInt8 :: length.toUInt8 ::
        (body ++ [(sent >>> 8).toUInt8, sent.toUInt8]).set place value := rfl
  have hget : (body ++ [(sent >>> 8).toUInt8, sent.toUInt8])[place]? ≠ some value := hvalue
  have hbody : body.length = 1 + payload.length := by
    rw [List.length_cons, Nat.add_comm]
  rw [hset]
  by_cases hplace : place < body.length
  · -- in the command or the payload: the checksum that came is that of other bytes
    refine ⟨body.set place value, (sent >>> 8).toUInt8, sent.toUInt8, ?_, ?_, ?_⟩
    · rw [List.length_set, hbody]
    · rw [List.set_append_left _ _ hplace]
      rfl
    · rintro crc ⟨hhigh, hlow⟩
      have hne : body[place] ≠ value := by
        rw [List.getElem?_append_left hplace, List.getElem?_eq_getElem hplace] at hget
        exact fun heq => hget (congrArg some heq)
      have hsplit : body = body.take place ++ body[place] :: body.drop (place + 1) := by simp
      have hchanged : body.set place value =
          body.take place ++ value :: body.drop (place + 1) := by
        rw [List.set_eq_take_append_cons_drop, if_pos hplace]
      have hsame : sent = crc := eq_of_bigEndian hhigh hlow
      refine Crc.ofBytes_ne_of_byte hne (Words.bigEndian length ++ body.take place)
        (body.drop (place + 1)) Crc.initial ?_
      rw [List.append_assoc, List.append_assoc, ← hsplit, ← hchanged]
      exact hsame
  · -- in the checksum: the bytes before it are those it was made of
    have hrest : place - body.length < 2 := by
      rw [Frame.length_bytes] at hlast
      omega
    have hcrc : Crc.ofBytes (Words.bigEndian length ++ body) Crc.initial = sent := rfl
    rw [List.getElem?_append_right (by omega)] at hget
    rw [List.set_append_right _ _ (by omega)]
    generalize place - body.length = offset at hget hrest
    match offset with
    | 0 =>
      refine ⟨body, value, sent.toUInt8, hbody, rfl, ?_⟩
      rintro crc ⟨hhigh, -⟩
      exact hget (congrArg some hhigh.symm)
    | 1 =>
      refine ⟨body, (sent >>> 8).toUInt8, value, hbody, rfl, ?_⟩
      rintro crc ⟨-, hlow⟩
      exact hget (congrArg some hlow.symm)

/-! ## the frame behind -/

theorem length_watch (decoder : Decoder) (bytes : List UInt8) :
    (decoder.watch bytes).2.length = bytes.length := by
  induction bytes generalizing decoder with
  | nil => rfl
  | cons byte rest ih => rw [watch_cons, List.length_cons, ih, List.length_cons]

theorem valid_watch {state : State} (h : state.Valid limit) (bytes : List UInt8) :
    ∃ last : State, last.Valid limit ∧
      ((⟨limit, state⟩ : Decoder).watch bytes).1 = ⟨limit, last⟩ := by
  induction bytes generalizing state with
  | nil => exact ⟨state, h, rfl⟩
  | cons byte rest ih => exact ih (next_took h byte).1

/-- a frame is given only with an encoding that began while the decoder waited -/
theorem waiting_of_given {damaged : List UInt8} {command : UInt8} {payload : List UInt8}
    {initial : List UInt8} {last : UInt8} (hbytes : Frame.bytes command payload = initial ++ [last])
    (hgiven : (((⟨limit, .start⟩ : Decoder).watch (damaged ++ initial)).1.feed last).2 =
      some ⟨command, payload, Frame.checksum command payload⟩) :
    ((⟨limit, .start⟩ : Decoder).watch damaged).1 = ⟨limit, .start⟩ := by
  obtain ⟨state, hvalid, hstate⟩ :=
    valid_watch (State.valid_start limit) (damaged ++ initial)
  have hheld : state.held = initial := by
    obtain ⟨-, htook⟩ := next_took hvalid last
    have hnext : (state.next limit last).2 =
        some ⟨command, payload, Frame.checksum command payload⟩ := by
      rw [hstate] at hgiven
      exact hgiven
    generalize state.next limit last = outcome at htook hnext
    cases htook with
    | dropped => cases hnext
    | held more => cases hnext
    | gave fits whole =>
      obtain ⟨rfl, rfl, -⟩ := Frame.mk.inj (Option.some.inj hnext)
      rw [hbytes] at whole
      exact List.append_cancel_right whole
  have hfront : ∀ front, damaged ++ initial = front ++ initial → front = damaged :=
    fun front heq => (List.append_cancel_right heq).symm
  rcases held_watch (State.valid_start limit) (damaged ++ initial) with
    hall | ⟨front, back, hsplit, hwaits, hback⟩
  · rw [hstate] at hall
    have hnone : [] = damaged := hfront [] (hall.symm.trans hheld)
    rw [← hnone]
    rfl
  · rw [hstate] at hback
    have hsame : initial = back := hheld.symm.trans hback
    rw [← hsame] at hsplit
    rw [← hfront front hsplit]
    exact hwaits

theorem watch_behind_iff {damaged : List UInt8} {command : UInt8} {payload : List UInt8}
    (hfits : 1 + payload.length ≤ limit) (hmax : limit ≤ Frame.maxLength) :
    ((⟨limit, .start⟩ : Decoder).watch (damaged ++ Frame.bytes command payload)).2 =
        List.replicate (damaged.length + (payload.length + 5)) none ++
          [some ⟨command, payload, Frame.checksum command payload⟩] ↔
      Lost limit .start damaged := by
  constructor
  · intro h
    obtain ⟨initial, last, hbytes⟩ : ∃ initial last, Frame.bytes command payload = initial ++ [last] :=
      ⟨_, _, (List.dropLast_concat_getLast (List.cons_ne_nil _ _)).symm⟩
    have hlength := congrArg List.length hbytes
    rw [Frame.length_bytes, List.length_append, List.length_singleton] at hlength
    rw [hbytes, ← List.append_assoc, watch_append, watch_cons, watch_nil] at h
    have hsplit := List.append_inj h (by
      rw [length_watch, List.length_append, List.length_replicate]
      omega)
    have hwaits := waiting_of_given hbytes (List.cons.inj hsplit.2).1
    have hnothing : ((⟨limit, .start⟩ : Decoder).watch damaged).2 =
        List.replicate damaged.length none := by
      have hfirst := hsplit.1
      rw [watch_append, ← List.replicate_append_replicate] at hfirst
      exact (List.append_inj hfirst (by rw [length_watch, List.length_replicate])).1
    exact Prod.ext hwaits hnothing
  · intro h
    rw [watch_append, h, watch_bytes hfits hmax]
    show List.replicate damaged.length none ++ (List.replicate (payload.length + 5) none ++ _) = _
    rw [← List.append_assoc, List.replicate_append_replicate]

theorem feedAll_behind {damaged : List UInt8} (hlost : Lost limit .start damaged)
    {command : UInt8} {payload : List UInt8} (hfits : 1 + payload.length ≤ limit)
    (hmax : limit ≤ Frame.maxLength) :
    (⟨limit, .start⟩ : Decoder).feedAll (damaged ++ Frame.bytes command payload) =
      (⟨limit, .start⟩, [⟨command, payload, Frame.checksum command payload⟩]) := by
  have hwaits : ((⟨limit, .start⟩ : Decoder).watch (damaged ++ Frame.bytes command payload)).1 =
      ⟨limit, .start⟩ := by
    rw [watch_append, hlost]
    exact congrArg Prod.fst (watch_bytes hfits hmax)
  rw [feedAll_eq_watch, hwaits, (watch_behind_iff hfits hmax).mpr hlost]
  simp

/-- a wrong byte in the command, the payload or the checksum, in the words of the bytes that came -/
theorem lost_set_iff {command : UInt8} {payload : List UInt8} {index : Nat} {value : UInt8}
    (hfits : 1 + payload.length ≤ limit) (hmax : limit ≤ Frame.maxLength) (hindex : 3 ≤ index)
    (hlast : index < (Frame.bytes command payload).length)
    (hvalue : (Frame.bytes command payload)[index]? ≠ some value) {covered : List UInt8}
    {first second : UInt8}
    (hparts : (Frame.bytes command payload).set index value =
      Frame.startByte :: covered ++ [first, second]) :
    Lost limit .start ((Frame.bytes command payload).set index value) ↔
      ¬ (first ≠ (Crc.ofBytes covered Crc.initial >>> 8).toUInt8 ∧ second = Frame.startByte) := by
  obtain ⟨body, first', second', hbody, hset, hmisfit⟩ := misfit_of_set hindex hlast hvalue
  have hsame : covered ++ [first, second] =
      Words.bigEndian (Frame.lengthField payload) ++ body ++ [first', second'] :=
    (List.cons.inj (hparts.symm.trans hset)).2
  obtain ⟨rfl, htail⟩ := List.append_inj' hsame rfl
  obtain ⟨rfl, htail'⟩ := List.cons.inj htail
  obtain rfl := (List.cons.inj htail').1
  have hlength : (Frame.lengthField payload).toNat = 1 + payload.length :=
    UInt16.toNat_ofNat_of_lt' (Nat.lt_succ_of_le (Nat.le_trans hfits hmax))
  rw [hparts]
  refine lost_misfit_iff (by omega) ?_ (by omega) rfl hmisfit
  rw [hlength]
  exact hfits

/-! ## the law -/

/-- **One wrong byte behind the start byte, and an intact encoding behind it.**  The intact frame is
given with its last byte, and nothing else is, just when the damaged bytes are lost.  With the wrong
byte in the command, the payload or the checksum they are, unless the checksum's high byte is found
wrong and its low byte is a start byte; with the wrong byte in the length field that depends on what
stands behind the length that is now declared.  Bytes without a start byte are always lost. -/
theorem resynchronises_iff (limit : Nat) {command command' : UInt8} {payload payload' : List UInt8}
    {sent next : List UInt8} (hsent : Frame.encode? command payload = .ok sent)
    (hnext : Frame.encode? command' payload' = .ok next)
    (hfits : 1 + payload.length ≤ (withLimit limit).limit)
    (hfits' : 1 + payload'.length ≤ (withLimit limit).limit)
    {index : Nat} (hlast : index < sent.length) {value : UInt8} (hvalue : sent[index]? ≠ some value) :
    let decoder := withLimit limit
    let damaged := sent.set index value
    let frame : Frame := ⟨command', payload', Frame.checksum command' payload'⟩
    ((decoder.watch (damaged ++ next)).2 =
        List.replicate (damaged.length + (next.length - 1)) none ++ [some frame] ↔
      Lost decoder.limit .start damaged) ∧
    (Lost decoder.limit .start damaged →
      decoder.feedAll (damaged ++ next) = (decoder, [frame])) ∧
    (3 ≤ index → ∀ covered first second,
      damaged = Frame.startByte :: covered ++ [first, second] →
      (Lost decoder.limit .start damaged ↔
        ¬ (first ≠ (Crc.ofBytes covered Crc.initial >>> 8).toUInt8 ∧
          second = Frame.startByte))) ∧
    (∀ high low behind, damaged = Frame.startByte :: high :: low :: behind →
      (Lost decoder.limit .start damaged ↔ Dropped decoder.limit high low behind)) ∧
    ∀ bytes, Frame.startByte ∉ bytes → Lost decoder.limit .start bytes := by
  intro decoder damaged frame
  have hmax : (withLimit limit).limit ≤ Frame.maxPayload + 1 := by
    show max 1 (min limit 65535) ≤ 65535
    omega
  obtain rfl : Frame.bytes command payload = sent := by
    rw [Frame.encode?_of_le (by omega)] at hsent
    exact Except.ok.inj hsent
  obtain rfl : Frame.bytes command' payload' = next := by
    rw [Frame.encode?_of_le (by omega)] at hnext
    exact Except.ok.inj hnext
  refine ⟨?_, fun hlost => feedAll_behind hlost hfits' hmax,
    fun hindex _ _ _ => lost_set_iff hfits hmax hindex hlast hvalue, ?_, fun _ => lost_of_not_mem⟩
  · rw [Frame.length_bytes]
    exact watch_behind_iff hfits' hmax
  · intro high low behind hparts
    rw [hparts]
    exact lost_iff_dropped high low behind

/-- a wrong byte in the payload costs its own frame only -/
theorem resynchronises_behind_wrong_payload :
    let sent := Frame.bytes 0x10 [1]
    let next := Frame.bytes 7 []
    Frame.encode? 0x10 [1] = .ok sent ∧ Frame.encode? 7 [] = .ok next ∧ sent[4]? ≠ some 0xFE ∧
      (withLimit 144).feedAll (sent.set 4 0xFE ++ next) =
        (withLimit 144, [⟨7, [], Frame.checksum 7 []⟩]) := by
  intro sent next
  have hvalue : sent[4]? ≠ some 0xFE := by decide +kernel
  obtain ⟨-, hfound, hbehind, -⟩ := @resynchronises_iff 144 0x10 7 [1] [] sent next rfl rfl
    (by decide) (by decide) 4 (by decide) 0xFE hvalue
  refine ⟨rfl, rfl, hvalue, hfound ?_⟩
  rw [hbehind (by decide) [0, 2, 0x10, 0xFE] 0xE4 0x6D (by decide +kernel)]
  decide +kernel

/-- A length that has become longer takes the beginning of the next frame for the end of its own,
and neither is found. -/
theorem swallowed_behind_longer_length :
    ¬ ∀ (limit : Nat) (command command' : UInt8) (payload payload' sent next : List UInt8),
      Frame.encode? command payload = .ok sent → Frame.encode? command' payload' = .ok next →
      1 + payload.length ≤ (withLimit limit).limit → 1 + payload'.length ≤ (withLimit limit).limit →
      ∀ (index : Nat) (value : UInt8), 1 ≤ index → index < sent.length →
        sent[index]? ≠ some value →
        ((withLimit limit).feedAll (sent.set index value ++ next)).2.map
          (fun frame => (frame.command, frame.payload)) = [(command', payload')] := by
  intro h
  have hfound := h 144 4 7 [] [] _ _ rfl rfl (by decide) (by decide) 2 3 (by decide) (by decide)
    (by decide)
  exact absurd hfound (by decide +kernel)

end CameraPower.Decoder
