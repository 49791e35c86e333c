import CameraPower.Proofs.DecoderCompleteness

/-!
# Every frame that is received was sent

A decoder gives a frame only with the last byte of an encoding that stands whole in the stream, and
no two of these encodings share a byte.  The reason is that its state remembers every byte of the
frame under way, and the checksum of those bytes:

* `State.held`       the bytes of the frame under way, from its start byte on;
* `State.Valid`      the checksum and the lengths are those of the held bytes;
* `Took`             a byte is held, or gives the frame of all held bytes, or drops them;
* `reads_watch`      a run of bytes splits into encodings and what lies between them;
* `held_watch`       what is held at the end of a run came after the last drop.
-/

namespace CameraPower

theorem Words.bigEndian_ofBigEndian (high low : UInt8) :
    Words.bigEndian (Words.ofBigEndian high low) = [high, low] := by
  have hword := toNat_ofBigEndian high low
  have hhigh := high.toNat_lt
  have hlow := low.toNat_lt
  unfold bigEndian
  congr 1
  · apply UInt8.toNat_inj.mp
    rw [UInt16.toNat_toUInt8, UInt16.toNat_shiftRight, hword]
    show (256 * high.toNat + low.toNat) >>> 8 % 256 = high.toNat
    rw [Nat.shiftRight_eq_div_pow]
    omega
  · congr 1
    apply UInt8.toNat_inj.mp
    rw [UInt16.toNat_toUInt8, hword]
    omega

namespace Decoder

/-! ## the bytes of the frame under way -/

/-- what the checksum has run over when a length and some bytes behind it are in -/
def covered (length : Nat) (received : Array UInt8) : List UInt8 :=
  Words.bigEndian (UInt16.ofNat length) ++ received.toList

/-- the bytes of the frame under way, from its start byte on -/
def State.held : State → List UInt8
  | .start => []
  | .lengthHigh => [Frame.startByte]
  | .lengthLow high _ => [Frame.startByte, high]
  | .body length received _ => Frame.startByte :: covered length received
  | .crcHigh received _ => Frame.startByte :: covered received.size received
  | .crcLow received crc => Frame.startByte :: covered received.size received ++ [(crc >>> 8).toUInt8]

/-- the body of a frame is in, within the limit, and this is the checksum so far -/
def Complete (limit : Nat) (received : Array UInt8) (crc : UInt16) : Prop :=
  0 < received.size ∧ received.size ≤ limit ∧
    crc = Crc.ofBytes (covered received.size received) Crc.initial

/-- what a state that a decoder can reach says of its parts -/
def State.Valid (limit : Nat) : State → Prop
  | .start => True
  | .lengthHigh => True
  | .lengthLow high crc => crc = Crc.step Crc.initial high
  | .body length received crc => received.size < length ∧ length ≤ limit ∧
      crc = Crc.ofBytes (covered length received) Crc.initial
  | .crcHigh received crc => Complete limit received crc
  | .crcLow received crc => Complete limit received crc

theorem State.valid_start (limit : Nat) : State.start.Valid limit := trivial

theorem covered_push (length : Nat) (received : Array UInt8) (byte : UInt8) :
    covered length (received.push byte) = covered length received ++ [byte] := by
  rw [covered, covered, Array.toList_push, List.append_assoc]

theorem ofBytes_covered_push (length : Nat) (received : Array UInt8) (byte : UInt8)
    (crc : UInt16) : Crc.ofBytes (covered length (received.push byte)) crc =
      Crc.step (Crc.ofBytes (covered length received) crc) byte := by
  rw [covered_push, Crc.ofBytes_append, Crc.ofBytes_cons, Crc.ofBytes_nil]

/-- the bytes of a complete body and its checksum are an encoding -/
theorem bytes_of_complete {command : UInt8} {payload : List UInt8} {received : Array UInt8}
    (hreceived : received.toList = command :: payload) :
    Frame.startByte :: covered received.size received ++
        Words.bigEndian (Crc.ofBytes (covered received.size received) Crc.initial) =
      Frame.bytes command payload := by
  have hsize : received.size = 1 + payload.length := by
    rw [← Array.length_toList, hreceived, List.length_cons, Nat.add_comm]
  have hcovered : covered received.size received = Frame.covered command payload := by
    rw [covered, hsize, hreceived]
    rfl
  rw [hcovered]
  rfl

/-! ## one byte -/

variable {limit : Nat}

/-- The things that a byte can do to a state: it is held with the bytes before it, or it completes
the frame of all of them, or it leaves the decoder waiting for a start byte. -/
inductive Took (limit : Nat) (state : State) (byte : UInt8) : State × Option Frame → Prop
  | dropped : Took limit state byte (.start, none)
  | held {next : State} (more : next.held = state.held ++ [byte]) :
    Took limit state byte (next, none)
  | gave {command : UInt8} {payload : List UInt8} (fits : 1 + payload.length ≤ limit)
    (whole : state.held ++ [byte] = Frame.bytes command payload) :
    Took limit state byte
      (.start, some ⟨command, payload, Frame.checksum command payload⟩)

theorem next_crcLow {received : Array UInt8} {crc : UInt16} (h : Complete limit received crc)
    (byte : UInt8) :
    Took limit (.crcLow received crc) byte ((State.crcLow received crc).next limit byte) := by
  obtain ⟨hpos, hlimit, hcrc⟩ := h
  by_cases hbyte : byte = crc.toUInt8
  · obtain ⟨command, payload, hreceived⟩ : ∃ command payload,
        received.toList = command :: payload := by
      refine List.exists_cons_of_length_pos ?_
      rw [Array.length_toList]
      exact hpos
    have hsize : 1 + payload.length = received.size := by
      rw [← Array.length_toList, hreceived, List.length_cons, Nat.add_comm]
    have hchecksum : crc = Frame.checksum command payload := by
      rw [hcrc, covered, ← hsize, hreceived]
      rfl
    have hnext : (State.crcLow received crc).next limit byte =
        (.start, some ⟨command, payload, Frame.checksum command payload⟩) := by
      simp only [State.next, hbyte, if_true, complete, hreceived, ← hchecksum]
    rw [hnext]
    refine .gave (by omega) ?_
    rw [← bytes_of_complete hreceived, ← hcrc, hbyte]
    simp [State.held, Words.bigEndian]
  · have hnext : (State.crcLow received crc).next limit byte = (.start, none) := by
      simp only [State.next, if_neg hbyte]
    rw [hnext]
    exact .dropped

/-- what one byte makes of a valid state -/
theorem next_took {state : State} (h : state.Valid limit) (byte : UInt8) :
    (state.next limit byte).1.Valid limit ∧ Took limit state byte (state.next limit byte) := by
  cases state with
  | start =>
    simp only [State.next]
    split
    · next hstart => exact ⟨trivial, .held (by rw [hstart]; rfl)⟩
    · exact ⟨trivial, .dropped⟩
  | lengthHigh => exact ⟨rfl, .held rfl⟩
  | lengthLow high crc =>
    simp only [State.next]
    split
    · exact ⟨trivial, .dropped⟩
    · next hlength =>
      let length := (Words.ofBigEndian high byte).toNat
      have hcovered : covered length #[] = [high, byte] := by
        rw [covered, UInt16.ofNat_toNat, Words.bigEndian_ofBigEndian]
        rfl
      refine ⟨⟨by simp only [Array.size_empty]; omega, by omega, ?_⟩, .held ?_⟩
      · show Crc.step crc byte = Crc.ofBytes (covered length #[]) Crc.initial
        rw [hcovered, h]
        rfl
      · show Frame.startByte :: covered length #[] = _
        rw [hcovered]
        rfl
  | body length received crc =>
    obtain ⟨hsize, hlimit, hcrc⟩ := h
    have hpush : (received.push byte).size = received.size + 1 := Array.size_push ..
    have hstep : Crc.step crc byte =
        Crc.ofBytes (covered length (received.push byte)) Crc.initial := by
      rw [ofBytes_covered_push, hcrc]
    simp only [State.next]
    split
    · next hlast =>
      have hlength : length = (received.push byte).size := by omega
      rw [hlength] at hstep
      refine ⟨⟨by omega, by omega, hstep⟩, .held ?_⟩
      show Frame.startByte :: covered (received.push byte).size (received.push byte) =
        Frame.startByte :: covered length received ++ [byte]
      rw [← hlength, covered_push, List.cons_append]
    · next hmore =>
      refine ⟨⟨by omega, hlimit, hstep⟩, .held ?_⟩
      show Frame.startByte :: covered length (received.push byte) =
        Frame.startByte :: covered length received ++ [byte]
      rw [covered_push, List.cons_append]
  | crcHigh received crc =>
    simp only [State.next]
    split
    · next hbyte => exact ⟨h, .held (by rw [hbyte]; rfl)⟩
    · exact ⟨trivial, .dropped⟩
  | crcLow received crc => exact ⟨trivial, next_crcLow h byte⟩

/-! ## runs of bytes -/

/-- `stream` gives `given`, byte by byte, because it splits into messages within the limit: each of
them gives its frame with its last byte. -/
def Reads (limit : Nat) (stream : List UInt8) (given : List (Option Frame)) : Prop :=
  ∃ (messages : List Message) (tail : List UInt8),
    stream = messages.flatMap (fun message => message.filler ++ message.wire) ++ tail ∧
    given = messages.flatMap Message.given ++ List.replicate tail.length none ∧
    ∀ message ∈ messages, 1 + message.payload.length ≤ limit

theorem Reads.held (bytes : List UInt8) :
    Reads limit bytes (List.replicate bytes.length none) :=
  ⟨[], bytes, rfl, rfl, fun _ hmem => absurd hmem List.not_mem_nil⟩

/-- bytes that give nothing may stand in front -/
theorem Reads.skip (front : List UInt8) {stream : List UInt8} {given : List (Option Frame)}
    (h : Reads limit stream given) :
    Reads limit (front ++ stream) (List.replicate front.length none ++ given) := by
  obtain ⟨messages, tail, hstream, hgiven, hfits⟩ := h
  rw [hstream, hgiven]
  cases messages with
  | nil =>
    refine ⟨[], front ++ tail, rfl, ?_, hfits⟩
    simp only [List.flatMap_nil, List.nil_append]
    rw [List.replicate_append_replicate, List.length_append]
  | cons message messages =>
    obtain ⟨filler, command, payload⟩ := message
    have hmore : Message.given ⟨front ++ filler, command, payload⟩ =
        List.replicate front.length none ++ Message.given ⟨filler, command, payload⟩ := by
      simp only [Message.given, Message.frame, Message.wire, List.length_append]
      rw [← List.append_assoc, List.replicate_append_replicate, Nat.add_assoc]
    obtain ⟨hfirst, hrest⟩ := List.forall_mem_cons.mp hfits
    refine ⟨⟨front ++ filler, command, payload⟩ :: messages, tail, ?_, ?_,
      List.forall_mem_cons.mpr ⟨hfirst, hrest⟩⟩
    · simp [Message.wire]
    · simp only [List.flatMap_cons, hmore, List.append_assoc]

/-- an encoding may stand in front -/
theorem Reads.gave (command : UInt8) {payload : List UInt8} (hlimit : 1 + payload.length ≤ limit)
    {stream : List UInt8} {given : List (Option Frame)} (h : Reads limit stream given) :
    Reads limit (Frame.bytes command payload ++ stream)
      (List.replicate (payload.length + 5) none ++
        some ⟨command, payload, Frame.checksum command payload⟩ :: given) := by
  obtain ⟨messages, tail, hstream, hgiven, hfits⟩ := h
  refine ⟨⟨[], command, payload⟩ :: messages, tail, ?_, ?_,
    List.forall_mem_cons.mpr ⟨hlimit, hfits⟩⟩
  · rw [hstream]
    simp [Message.wire]
  · have hone : Message.given ⟨[], command, payload⟩ = List.replicate (payload.length + 5) none ++
        [some ⟨command, payload, Frame.checksum command payload⟩] := by
      simp [Message.given, Message.wire, Message.frame]
    rw [hgiven, List.flatMap_cons, hone]
    simp

theorem watch_state_cons (state : State) (byte : UInt8) (rest : List UInt8) :
    (⟨limit, state⟩ : Decoder).watch (byte :: rest) =
      (((⟨limit, (state.next limit byte).1⟩ : Decoder).watch rest).1,
        (state.next limit byte).2 ::
          ((⟨limit, (state.next limit byte).1⟩ : Decoder).watch rest).2) := rfl

/-- **A run from a valid state**, with the bytes that the state holds in front of it, splits into
messages and what lies between them. -/
theorem reads_watch {state : State} (h : state.Valid limit) (stream : List UInt8) :
    Reads limit (state.held ++ stream)
      (List.replicate state.held.length none ++ ((⟨limit, state⟩ : Decoder).watch stream).2) := by
  -- on the stream; a byte that drops what is held makes it filler of the message to come
  induction stream generalizing state with
  | nil =>
    rw [watch_nil, List.append_nil, List.append_nil]
    exact .held state.held
  | cons byte rest ih =>
    obtain ⟨hvalid, htook⟩ := next_took h byte
    have hone : [none] = List.replicate 1 (none : Option Frame) := rfl
    rw [watch_state_cons]
    generalize state.next limit byte = outcome at hvalid htook ⊢
    cases htook with
    | dropped =>
      have hskip := (ih hvalid).skip (state.held ++ [byte])
      rw [List.length_append, ← List.replicate_append_replicate] at hskip
      simpa [State.held] using hskip
    | held more =>
      have hrest := ih hvalid
      rw [more, List.length_append, ← List.replicate_append_replicate] at hrest
      simpa using hrest
    | gave fits whole =>
      rename_i command payload
      have hgave := (ih hvalid).gave command fits
      have hlength : state.held.length = payload.length + 5 := by
        have hbytes := congrArg List.length whole
        rw [Frame.length_bytes, List.length_append, List.length_singleton] at hbytes
        omega
      rw [← whole, ← hlength] at hgave
      simpa [State.held] using hgave

/-- What is held at the end of a run is all that was fed since some moment at which the decoder
waited for a start byte, or all that was fed behind what was held before. -/
theorem held_watch {state : State} (h : state.Valid limit) (stream : List UInt8) :
    ((⟨limit, state⟩ : Decoder).watch stream).1.state.held = state.held ++ stream ∨
      ∃ front back, stream = front ++ back ∧
        ((⟨limit, state⟩ : Decoder).watch front).1 = ⟨limit, .start⟩ ∧
        ((⟨limit, state⟩ : Decoder).watch stream).1.state.held = back := by
  induction stream generalizing state with
  | nil => exact Or.inl (List.append_nil _).symm
  | cons byte rest ih =>
    obtain ⟨hvalid, htook⟩ := next_took h byte
    have hlater : ∀ next given, state.next limit byte = (next, given) →
        (∃ front back, rest = front ++ back ∧
          ((⟨limit, next⟩ : Decoder).watch front).1 = ⟨limit, .start⟩ ∧
          ((⟨limit, next⟩ : Decoder).watch rest).1.state.held = back) →
        ∃ front back, byte :: rest = front ++ back ∧
          ((⟨limit, state⟩ : Decoder).watch front).1 = ⟨limit, .start⟩ ∧
          ((⟨limit, state⟩ : Decoder).watch (byte :: rest)).1.state.held = back := by
      rintro next given hnext ⟨front, back, hrest, hfront, hback⟩
      refine ⟨byte :: front, back, by rw [hrest, List.cons_append], ?_, ?_⟩
      · rw [watch_state_cons, hnext]
        exact hfront
      · rw [watch_state_cons, hnext]
        exact hback
    have hwaiting : ∀ given, state.next limit byte = (.start, given) →
        ∃ front back, byte :: rest = front ++ back ∧
          ((⟨limit, state⟩ : Decoder).watch front).1 = ⟨limit, .start⟩ ∧
          ((⟨limit, state⟩ : Decoder).watch (byte :: rest)).1.state.held = back := by
      intro given hnext
      rcases ih (State.valid_start limit) with hall | hpart
      · refine hlater _ _ hnext ⟨[], rest, rfl, rfl, ?_⟩
        rw [hall]
        rfl
      · exact hlater _ _ hnext hpart
    generalize hnext : state.next limit byte = outcome at hvalid htook
    cases htook with
    | dropped => exact Or.inr (hwaiting _ hnext)
    | gave fits whole => exact Or.inr (hwaiting _ hnext)
    | held more =>
      rcases ih hvalid with hall | hpart
      · left
        rw [watch_state_cons, hnext, hall, more, List.append_assoc]
        rfl
      · exact Or.inr (hlater _ _ hnext hpart)

/-! ## the law -/

/-- **Every frame that is received was sent.**  Whatever a fresh decoder is fed splits into encodings
within its limit and bytes around them, so that each frame it gives comes with the last byte of its
own encoding, no other byte gives one, and its checksum is the one it was made with. -/
theorem receives_only_sent (limit : Nat) (stream : List UInt8) :
    ∃ (messages : List Message) (tail : List UInt8),
      stream = messages.flatMap (fun message => message.filler ++ message.wire) ++ tail ∧
      ((withLimit limit).feedAll stream).2 = messages.map Message.frame ∧
      ((withLimit limit).watch stream).2 =
        messages.flatMap Message.given ++ List.replicate tail.length none ∧
      ∀ message ∈ messages, 1 + message.payload.length ≤ max 1 (min limit 65535) ∧
        Frame.encode? message.command message.payload = .ok message.wire ∧
        Frame.make? message.command message.payload = .ok message.frame := by
  have hreads : Reads (max 1 (min limit 65535)) stream ((withLimit limit).watch stream).2 :=
    reads_watch (State.valid_start _) stream
  obtain ⟨messages, tail, hstream, hgiven, hfits⟩ := hreads
  refine ⟨messages, tail, hstream, ?_, hgiven, fun message hmem => ?_⟩
  · rw [feedAll_eq_watch, hgiven, List.filterMap_append, filterMap_given]
    simp
  · have hfit := hfits message hmem
    have hsmall : message.payload.length ≤ Frame.maxPayload := by
      show _ ≤ 65534
      omega
    exact ⟨hfit, Frame.encode?_of_le hsmall, Frame.make?_of_le hsmall⟩

end Decoder
end CameraPower
