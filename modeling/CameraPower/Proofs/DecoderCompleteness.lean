import CameraPower.Frame.Decoder

/-!
# Every frame that is sent is received

A stream that carries frames between bytes that cannot open one is read as it was meant: each frame
is given with the last byte of its encoding, and no other byte gives one.

* `Decoder.watch`  a run of bytes, with what each of them gave;
* `Message`        bytes that cannot open a frame, and the encoding of a frame behind them;
* `watch_header`, `watch_body`, `watch_crc`  the parts of an encoding, state by state;
* `watch_stream`   any number of messages.
-/

namespace CameraPower

/-! ## words and their bytes -/

theorem Words.toNat_ofBigEndian (high low : UInt8) :
    (Words.ofBigEndian high low).toNat = 256 * high.toNat + low.toNat := by
  have hhigh := high.toNat_lt
  have hlow := low.toNat_lt
  have hshift : (high.toUInt16 <<< 8).toNat = high.toNat <<< 8 := by
    rw [UInt16.toNat_shiftLeft, UInt8.toNat_toUInt16]
    show high.toNat <<< 8 % 2 ^ 16 = high.toNat <<< 8
    rw [Nat.shiftLeft_eq, Nat.mod_eq_of_lt (by omega)]
  unfold Words.ofBigEndian
  rw [UInt16.toNat_or, hshift, UInt8.toNat_toUInt16, ← Nat.shiftLeft_add_eq_or_of_lt hlow,
    Nat.shiftLeft_eq, Nat.mul_comm]

theorem Words.ofBigEndian_bigEndian (word : UInt16) :
    Words.ofBigEndian (word >>> 8).toUInt8 word.toUInt8 = word := by
  have hword := word.toNat_lt
  have hhigh : (word >>> 8).toUInt8.toNat = word.toNat / 256 := by
    rw [UInt16.toNat_toUInt8, UInt16.toNat_shiftRight]
    show word.toNat >>> 8 % 256 = word.toNat / 256
    rw [Nat.shiftRight_eq_div_pow]
    omega
  apply UInt16.toNat_inj.mp
  rw [toNat_ofBigEndian, hhigh, UInt16.toNat_toUInt8]
  omega

theorem Frame.toNat_lengthField {payload : List UInt8} (h : payload.length ≤ maxPayload) :
    (lengthField payload).toNat = 1 + payload.length := by
  have hmax : payload.length ≤ 65534 := h
  exact UInt16.toNat_ofNat_of_lt' (show 1 + payload.length < 65536 by omega)

/-! ## frames that are refused -/

theorem Frame.refused_iff (command : UInt8) (payload : List UInt8) (error : Error) :
    (Frame.encode? command payload = .error error ↔
      65534 < payload.length ∧ error = .payloadTooLarge payload.length) ∧
    (Frame.make? command payload = .error error ↔
      65534 < payload.length ∧ error = .payloadTooLarge payload.length) := by
  have hmax : Frame.maxPayload = 65534 := rfl
  by_cases h : 65534 < payload.length
  · rw [Frame.encode?, Frame.make?, hmax, if_pos h, if_pos h]
    simp only [Except.error.injEq, h, true_and]
    exact ⟨eq_comm, eq_comm⟩
  · rw [Frame.encode?, Frame.make?, hmax, if_neg h, if_neg h]
    simp [h]

namespace Decoder

/-! ## byte by byte -/

/-- a run of bytes, with what each of them gave -/
def watch (decoder : Decoder) : List UInt8 → Decoder × List (Option Frame)
  | [] => (decoder, [])
  | byte :: rest =>
    let (next, given) := decoder.feed byte
    let (last, later) := next.watch rest
    (last, given :: later)

theorem watch_nil (decoder : Decoder) : decoder.watch [] = (decoder, []) := rfl

theorem watch_cons (decoder : Decoder) (byte : UInt8) (rest : List UInt8) :
    decoder.watch (byte :: rest) = (((decoder.feed byte).1.watch rest).1,
      (decoder.feed byte).2 :: ((decoder.feed byte).1.watch rest).2) := rfl

theorem watch_append (decoder : Decoder) (front back : List UInt8) :
    decoder.watch (front ++ back) = (((decoder.watch front).1.watch back).1,
      (decoder.watch front).2 ++ ((decoder.watch front).1.watch back).2) := by
  induction front generalizing decoder with
  | nil => rfl
  | cons byte front ih => rw [List.cons_append, watch_cons, ih, watch_cons, List.cons_append]

theorem feedAll_eq_watch (decoder : Decoder) (bytes : List UInt8) :
    decoder.feedAll bytes = ((decoder.watch bytes).1, (decoder.watch bytes).2.filterMap id) := by
  induction bytes generalizing decoder with
  | nil => rfl
  | cons byte rest ih =>
    rw [feedAll_cons, watch_cons, ih]
    cases h : (decoder.feed byte).2 <;> simp

/-! ## single bytes -/

variable {limit : Nat}

theorem feed_other {byte : UInt8} (h : byte ≠ Frame.startByte) :
    (⟨limit, .start⟩ : Decoder).feed byte = (⟨limit, .start⟩, none) := by
  simp only [feed, State.next]
  rw [if_neg h]

theorem feed_lengthLow {high byte : UInt8} (crc : UInt16)
    (hpos : 0 < (Words.ofBigEndian high byte).toNat)
    (hlimit : (Words.ofBigEndian high byte).toNat ≤ limit) :
    (⟨limit, .lengthLow high crc⟩ : Decoder).feed byte =
      (⟨limit, .body (Words.ofBigEndian high byte).toNat #[] (Crc.step crc byte)⟩, none) := by
  simp only [feed, State.next]
  rw [if_neg (by omega)]

theorem feed_body {length : Nat} {received : Array UInt8} (crc : UInt16) (byte : UInt8)
    (h : received.size + 1 < length) :
    (⟨limit, .body length received crc⟩ : Decoder).feed byte =
      (⟨limit, .body length (received.push byte) (Crc.step crc byte)⟩, none) := by
  simp only [feed, State.next]
  rw [if_neg (by rw [Array.size_push]; omega)]

theorem feed_body_last {length : Nat} {received : Array UInt8} (crc : UInt16) (byte : UInt8)
    (h : length ≤ received.size + 1) :
    (⟨limit, .body length received crc⟩ : Decoder).feed byte =
      (⟨limit, .crcHigh (received.push byte) (Crc.step crc byte)⟩, none) := by
  simp only [feed, State.next]
  rw [if_pos (by rw [Array.size_push]; omega)]

theorem feed_crcHigh (received : Array UInt8) (crc : UInt16) :
    (⟨limit, .crcHigh received crc⟩ : Decoder).feed (crc >>> 8).toUInt8 =
      (⟨limit, .crcLow received crc⟩, none) := by
  simp only [feed, State.next, if_true]

theorem feed_crcLow (received : Array UInt8) (crc : UInt16) :
    (⟨limit, .crcLow received crc⟩ : Decoder).feed crc.toUInt8 =
      (⟨limit, .start⟩, complete received crc) := by
  simp only [feed, State.next, if_true]

/-! ## the parts of an encoding -/

theorem watch_filler {filler : List UInt8} (h : Frame.startByte ∉ filler) :
    (⟨limit, .start⟩ : Decoder).watch filler =
      (⟨limit, .start⟩, List.replicate filler.length none) := by
  induction filler with
  | nil => rfl
  | cons byte filler ih =>
    have hbyte : byte ≠ Frame.startByte := fun e => h (e ▸ List.mem_cons_self ..)
    have hrest : Frame.startByte ∉ filler := fun hmem => h (List.mem_cons_of_mem _ hmem)
    rw [watch_cons, feed_other hbyte, ih hrest]
    rfl

/-- the start byte and a length within the limit open a frame -/
theorem watch_header {length : UInt16} (hpos : 0 < length.toNat) (hlimit : length.toNat ≤ limit) :
    (⟨limit, .start⟩ : Decoder).watch (Frame.startByte :: Words.bigEndian length) =
      (⟨limit, .body length.toNat #[] (Crc.ofBytes (Words.bigEndian length) Crc.initial)⟩,
        [none, none, none]) := by
  have hword := Words.ofBigEndian_bigEndian length
  have hstart : (⟨limit, .start⟩ : Decoder).feed Frame.startByte = (⟨limit, .lengthHigh⟩, none) := rfl
  have hhigh : (⟨limit, .lengthHigh⟩ : Decoder).feed (length >>> 8).toUInt8 =
      (⟨limit, .lengthLow (length >>> 8).toUInt8 (Crc.step Crc.initial (length >>> 8).toUInt8)⟩,
        none) := rfl
  unfold Words.bigEndian
  rw [watch_cons, hstart, watch_cons, hhigh, watch_cons,
    feed_lengthLow _ (by rw [hword]; exact hpos) (by rw [hword]; exact hlimit), hword, watch_nil]
  rfl

/-- the body of a frame goes in, and nothing is given -/
theorem watch_body {length : Nat} {bytes : List UInt8} (hne : bytes ≠ []) {received : Array UInt8}
    (hsize : received.size + bytes.length = length) (crc : UInt16) :
    (⟨limit, .body length received crc⟩ : Decoder).watch bytes =
      (⟨limit, .crcHigh (received ++ bytes.toArray) (Crc.ofBytes bytes crc)⟩,
        List.replicate bytes.length none) := by
  induction bytes generalizing received crc with
  | nil => exact absurd rfl hne
  | cons byte rest ih =>
    rw [List.length_cons] at hsize
    rw [watch_cons]
    by_cases hlast : rest = []
    · rw [hlast] at hsize ⊢
      rw [feed_body_last crc byte (by simpa using Nat.le_of_eq hsize.symm), watch_nil]
      simp
    · have hpos := List.length_pos_iff.mpr hlast
      have hnext : (received.push byte).size + rest.length = length := by
        rw [Array.size_push]
        omega
      rw [feed_body crc byte (by omega), ih hlast hnext]
      simp [List.replicate_succ]

theorem watch_crc (received : Array UInt8) (crc : UInt16) :
    (⟨limit, .crcHigh received crc⟩ : Decoder).watch (Words.bigEndian crc) =
      (⟨limit, .start⟩, [none, complete received crc]) := by
  unfold Words.bigEndian
  rw [watch_cons, feed_crcHigh, watch_cons, feed_crcLow, watch_nil]

/-- an encoding gives its frame with its last byte and nothing before -/
theorem watch_bytes {command : UInt8} {payload : List UInt8} (hlimit : 1 + payload.length ≤ limit)
    (hmax : limit ≤ Frame.maxLength) :
    (⟨limit, .start⟩ : Decoder).watch (Frame.bytes command payload) =
      (⟨limit, .start⟩, List.replicate (payload.length + 5) none ++
        [some ⟨command, payload, Frame.checksum command payload⟩]) := by
  let length := Frame.lengthField payload
  let opened := Crc.ofBytes (Words.bigEndian length) Crc.initial
  have hlength : length.toNat = 1 + payload.length := by
    have hfield : 1 + payload.length ≤ 0xFFFF := Nat.le_trans hlimit hmax
    exact Frame.toNat_lengthField (show payload.length ≤ 65534 by omega)
  have hbytes : Frame.bytes command payload = (Frame.startByte :: Words.bigEndian length) ++
      ((command :: payload) ++ Words.bigEndian (Frame.checksum command payload)) := by
    simp [Frame.bytes, Frame.covered, length]
  have hchecksum : Crc.ofBytes (command :: payload) opened = Frame.checksum command payload := by
    rw [Frame.checksum, Frame.covered, Crc.ofBytes_append]
  have hheader : (⟨limit, .start⟩ : Decoder).watch (Frame.startByte :: Words.bigEndian length) =
      (⟨limit, .body length.toNat #[] opened⟩, [none, none, none]) :=
    watch_header (by omega) (by omega)
  have hbody : (⟨limit, .body length.toNat #[] opened⟩ : Decoder).watch (command :: payload) =
      (⟨limit, .crcHigh (command :: payload).toArray (Frame.checksum command payload)⟩,
        List.replicate (payload.length + 1) none) := by
    have hsize : (#[] : Array UInt8).size + (command :: payload).length = length.toNat := by
      rw [hlength, List.length_cons, Array.size_empty]
      omega
    rw [watch_body (List.cons_ne_nil command payload) hsize, hchecksum, Array.empty_append]
    rfl
  have hcomplete : complete (command :: payload).toArray (Frame.checksum command payload) =
      some ⟨command, payload, Frame.checksum command payload⟩ := rfl
  have hcount : List.replicate (payload.length + 5) (none : Option Frame) =
      [none, none, none] ++ (List.replicate (payload.length + 1) none ++ [none]) := by
    have hthree : [none, none, none] = List.replicate 3 (none : Option Frame) := rfl
    have hone : [none] = List.replicate 1 (none : Option Frame) := rfl
    rw [hthree, hone, List.replicate_append_replicate, List.replicate_append_replicate]
    congr 1
    omega
  rw [hbytes, watch_append, hheader, watch_append, hbody, watch_crc, hcomplete, hcount]
  simp

/-! ## streams -/

/-- bytes that cannot open a frame, and the frame that is sent behind them -/
structure Message where
  filler : List UInt8
  command : UInt8
  payload : List UInt8

namespace Message

def frame (message : Message) : Frame :=
  ⟨message.command, message.payload, Frame.checksum message.command message.payload⟩

def wire (message : Message) : List UInt8 :=
  Frame.bytes message.command message.payload

/-- what each byte of a message gives -/
def given (message : Message) : List (Option Frame) :=
  List.replicate (message.filler.length + (message.wire.length - 1)) none ++ [some message.frame]

/-- a message that a decoder with a limit can take -/
structure Fits (limit : Nat) (message : Message) : Prop where
  quiet : Frame.startByte ∉ message.filler
  small : 1 + message.payload.length ≤ limit

end Message

theorem watch_message {message : Message} (h : message.Fits limit) (hmax : limit ≤ Frame.maxLength) :
    (⟨limit, .start⟩ : Decoder).watch (message.filler ++ message.wire) =
      (⟨limit, .start⟩, message.given) := by
  have hwire : message.wire.length - 1 = message.payload.length + 5 := by
    rw [Message.wire, Frame.length_bytes]
    omega
  rw [watch_append, watch_filler h.quiet, Message.wire, watch_bytes h.small hmax, Message.given,
    hwire, ← List.append_assoc, List.replicate_append_replicate]
  rfl

theorem watch_stream {messages : List Message} (h : ∀ message ∈ messages, message.Fits limit)
    (hmax : limit ≤ Frame.maxLength) {tail : List UInt8} (htail : Frame.startByte ∉ tail) :
    (⟨limit, .start⟩ : Decoder).watch
        (messages.flatMap (fun message => message.filler ++ message.wire) ++ tail) =
      (⟨limit, .start⟩, messages.flatMap Message.given ++ List.replicate tail.length none) := by
  induction messages with
  | nil => exact watch_filler htail
  | cons message messages ih =>
    obtain ⟨hfirst, hrest⟩ := List.forall_mem_cons.mp h
    rw [List.flatMap_cons, List.append_assoc, watch_append, watch_message hfirst hmax, ih hrest,
      List.flatMap_cons, List.append_assoc]

theorem filterMap_given (messages : List Message) :
    (messages.flatMap Message.given).filterMap id = messages.map Message.frame := by
  induction messages with
  | nil => rfl
  | cons message messages ih =>
    rw [List.flatMap_cons, List.filterMap_append, ih, Message.given, List.map_cons]
    simp

/-! ## the law -/

theorem limit_feedAll (decoder : Decoder) (bytes : List UInt8) :
    (decoder.feedAll bytes).1.limit = decoder.limit := by
  induction bytes generalizing decoder with
  | nil => rfl
  | cons byte rest ih => rw [feedAll_cons, ih, limit_feed]

theorem limit_withLimit {limit : Nat} (hpos : 1 ≤ limit) (hmax : limit ≤ 65535) :
    (withLimit limit).limit = limit := by
  show max 1 (min limit 65535) = limit
  omega

/-- **Every frame that is sent is received.**  A decoder that waits for a start byte, whatever it has
been through, gives the frames of messages within its limit, each with the last byte of its encoding
and nothing with any other byte, and then waits again. -/
theorem receives_stream (limit : Nat) (hpos : 1 ≤ limit) (hmax : limit ≤ 65535)
    (earlier : List UInt8) (hstart : ((withLimit limit).feedAll earlier).1.state = .start)
    (messages : List Message) (hmessages : ∀ message ∈ messages, message.Fits limit)
    (tail : List UInt8) (htail : Frame.startByte ∉ tail) :
    let decoder := ((withLimit limit).feedAll earlier).1
    let stream := messages.flatMap (fun message => message.filler ++ message.wire) ++ tail
    (∀ message ∈ messages, Frame.encode? message.command message.payload = .ok message.wire ∧
      Frame.make? message.command message.payload = .ok message.frame) ∧
    decoder.feedAll stream = (decoder, messages.map Message.frame) ∧
    (decoder.watch stream).2 =
      messages.flatMap Message.given ++ List.replicate tail.length none ∧
    ∀ command payload error,
      (Frame.encode? command payload = .error error ↔
        65534 < payload.length ∧ error = .payloadTooLarge payload.length) ∧
      (Frame.make? command payload = .error error ↔
        65534 < payload.length ∧ error = .payloadTooLarge payload.length) := by
  intro decoder stream
  have hdecoder : decoder = ⟨limit, .start⟩ := by
    have hlimit : decoder.limit = limit := by
      rw [limit_feedAll, limit_withLimit hpos hmax]
    calc decoder = ⟨decoder.limit, decoder.state⟩ := rfl
      _ = ⟨limit, .start⟩ := by rw [hlimit, hstart]
  have hwatch : decoder.watch stream =
      (decoder, messages.flatMap Message.given ++ List.replicate tail.length none) := by
    rw [hdecoder]
    exact watch_stream hmessages hmax htail
  refine ⟨fun message hmem => ?_, ?_, ?_, Frame.refused_iff⟩
  · have hsmall : message.payload.length ≤ Frame.maxPayload := by
      have := (hmessages message hmem).small
      show _ ≤ 65534
      omega
    exact ⟨Frame.encode?_of_le hsmall, Frame.make?_of_le hsmall⟩
  · rw [feedAll_eq_watch, hwatch, List.filterMap_append, filterMap_given]
    simp
  · rw [hwatch]

/-- start bytes in a payload behind bytes that open nothing, and a frame without a payload -/
def twoMessages : List Message := [⟨[1, 2], 7, [0x5A, 0x5A]⟩, ⟨[], 4, []⟩]

/-- the law for a decoder that has dropped a frame beyond its limit -/
theorem receives_stream_two_messages :
    ((withLimit 3).feedAll [0x5A, 0, 9]).1.state = .start ∧
      (∀ message ∈ twoMessages, message.Fits 3) ∧
      (((withLimit 3).feedAll [0x5A, 0, 9]).1.feedAll
        (twoMessages.flatMap (fun message => message.filler ++ message.wire) ++ [3])).2 =
          twoMessages.map Message.frame := by
  have hstart : ((withLimit 3).feedAll [0x5A, 0, 9]).1.state = .start := by decide
  have hfits : ∀ message ∈ twoMessages, message.Fits 3 := by
    intro message hmem
    simp only [twoMessages, List.mem_cons, List.not_mem_nil, or_false] at hmem
    rcases hmem with rfl | rfl
    · exact ⟨by decide, by decide⟩
    · exact ⟨by decide, by decide⟩
  obtain ⟨-, hfeed, -⟩ := receives_stream 3 (by decide) (by decide) [0x5A, 0, 9] hstart twoMessages
    hfits [3] (by decide)
  exact ⟨hstart, hfits, congrArg Prod.snd hfeed⟩

end Decoder
end CameraPower
