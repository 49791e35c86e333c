import CameraPower.Proofs.DecoderCompleteness

/-!
# The registers of a decoder

A decoder can be kept in five registers, which are written in place and read by index.  What is in
them goes together in every phase of a frame, no index leaves the data, and no bytes whatever keep
the decoder away from its start for longer than the longest frame:

* `Registers`            the registers, `feed?` one byte, with no result where an index is too large;
* `Registers.Sound`      what is in them, phase by phase;
* `Registers.due`        how many bytes a frame can still take;
* `Takes`                one byte, and `Sound.run` any number of calls;
* `registers_stand`      the registers of a decoder that has been fed and reset in any way.
-/

namespace CameraPower.Decoder

/-! ## the machine -/

/-- the part of a frame that comes next -/
inductive Phase where
  | waiting
  | lengthHigh
  | lengthLow
  | body
  | crcHigh
  | crcLow
  deriving DecidableEq, Repr

/-- Each register keeps what was last written to it, also when that means nothing any more. -/
structure Registers where
  limit : Nat
  phase : Phase := .waiting
  length : Nat := 0
  crc : UInt16 := Crc.initial
  data : Array UInt8 := #[]
  deriving DecidableEq, Repr

/-- what can be done to a decoder -/
inductive Call where
  | feed (byte : UInt8)
  | reset
  deriving DecidableEq, Repr

namespace Registers

def fresh (limit : Nat) : Registers :=
  { limit := max 1 (min limit Frame.maxLength) }

/-- the checksum keeps its value -/
def reset (r : Registers) : Registers :=
  { r with phase := .waiting, length := 0, data := #[] }

/-- a list cut at a place that must be in it -/
def splitOff? (list : List UInt8) (place : Nat) : Option (List UInt8 × List UInt8) :=
  if place ≤ list.length then some (list.take place, list.drop place) else none

def complete? (data : Array UInt8) (crc : UInt16) : Option Frame := do
  let (front, payload) ← splitOff? data.toList 1
  let command ← front[0]?
  some ⟨command, payload, crc⟩

/-- One byte: the registers behind it and the frame that it completes, or no result where an index
leaves the data. -/
def feed? (r : Registers) (byte : UInt8) : Option (Registers × Option Frame) :=
  match r.phase with
  | .waiting =>
    some (if byte = Frame.startByte then { r with crc := Crc.initial, phase := .lengthHigh } else r,
      none)
  | .lengthHigh =>
    some ({ r with
      length := byte.toNat <<< 8
      crc := Crc.step r.crc byte
      phase := .lengthLow }, none)
  | .lengthLow =>
    let r := { r with length := r.length ||| byte.toNat, crc := Crc.step r.crc byte }
    some (if r.length = 0 ∨ r.length > r.limit then r.reset
      else { r with data := #[], phase := .body }, none)
  | .body =>
    let r := { r with crc := Crc.step r.crc byte, data := r.data.push byte }
    some (if r.data.size ≥ r.length then { r with phase := .crcHigh } else r, none)
  | .crcHigh =>
    some (if byte = (r.crc >>> 8).toUInt8 then { r with phase := .crcLow } else r.reset, none)
  | .crcLow =>
    if byte = r.crc.toUInt8 then do
      let frame ← complete? r.data r.crc
      some (r.reset, some frame)
    else some (r.reset, none)

def run? (r : Registers) : List Call → Option (Registers × List (Option Frame))
  | [] => some (r, [])
  | .feed byte :: rest => do
    let (next, given) ← r.feed? byte
    let (last, later) ← next.run? rest
    some (last, given :: later)
  | .reset :: rest => do
    let (last, later) ← r.reset.run? rest
    some (last, none :: later)

end Registers

/-- calls of a decoder, with what each of them gave -/
def run (decoder : Decoder) : List Call → Decoder × List (Option Frame)
  | [] => (decoder, [])
  | .feed byte :: rest =>
    let (next, given) := decoder.feed byte
    let (last, later) := next.run rest
    (last, given :: later)
  | .reset :: rest =>
    let (last, later) := decoder.reset.run rest
    (last, none :: later)

namespace Registers

/-! ## what is in the registers -/

/-- the checksum runs over the two bytes of the length and the data behind them -/
def Running (length : Nat) (data : Array UInt8) (crc : UInt16) : Prop :=
  ∃ high low : UInt8, length = 256 * high.toNat + low.toNat ∧
    crc = Crc.ofBytes (high :: low :: data.toList) Crc.initial

/-- What is in the registers in each phase. -/
def Sound (r : Registers) : Prop :=
  match r.phase with
  | .waiting => r.data = #[]
  | .lengthHigh => r.data = #[] ∧ r.crc = Crc.initial
  | .lengthLow => r.data = #[] ∧ ∃ high : UInt8, r.length = 256 * high.toNat ∧
      r.crc = Crc.ofBytes [high] Crc.initial
  | .body => 1 ≤ r.length ∧ r.length ≤ r.limit ∧ r.data.size < r.length ∧
      Running r.length r.data r.crc
  | .crcHigh | .crcLow => 1 ≤ r.length ∧ r.length ≤ r.limit ∧ r.data.size = r.length ∧
      Running r.length r.data r.crc

/-- the decoder that is kept in the registers -/
def decoder (r : Registers) : Decoder where
  limit := r.limit
  state :=
    match r.phase with
    | .waiting => .start
    | .lengthHigh => .lengthHigh
    | .lengthLow => .lengthLow (UInt8.ofNat (r.length / 256)) r.crc
    | .body => .body r.length r.data r.crc
    | .crcHigh => .crcHigh r.data r.crc
    | .crcLow => .crcLow r.data r.crc

/-- how many bytes can come before the registers are waiting again -/
def due (r : Registers) : Nat :=
  match r.phase with
  | .waiting => 0
  | .lengthHigh => r.limit + 4
  | .lengthLow => r.limit + 3
  | .body => r.length - r.data.size + 2
  | .crcHigh => 2
  | .crcLow => 1

theorem fresh_sound (limit : Nat) : (fresh limit).Sound := rfl
theorem reset_sound (r : Registers) : r.reset.Sound := rfl

variable {r : Registers}

theorem Sound.size_le (h : r.Sound) : r.data.size ≤ r.length := by
  unfold Sound at h
  split at h
  · rw [h]
    exact Nat.zero_le _
  · rw [h.1]
    exact Nat.zero_le _
  · rw [h.1]
    exact Nat.zero_le _
  · exact Nat.le_of_lt h.2.2.1
  · exact Nat.le_of_eq h.2.2.1
  · exact Nat.le_of_eq h.2.2.1

theorem Sound.due_le (h : r.Sound) : r.due ≤ r.limit + 4 := by
  unfold due
  split
  · exact Nat.zero_le _
  · exact Nat.le_refl _
  · exact Nat.le_succ _
  · next hphase =>
    simp only [Sound, hphase] at h
    omega
  · omega
  · omega

theorem due_pos (h : r.phase ≠ .waiting) : 0 < r.due := by
  unfold due
  split
  · next hphase => exact absurd hphase h
  all_goals exact Nat.succ_pos _

/-! ## one byte -/

theorem length_or (high low : UInt8) :
    256 * high.toNat ||| low.toNat = (Words.ofBigEndian high low).toNat := by
  rw [Words.toNat_ofBigEndian, ← Nat.two_pow_add_eq_or_of_lt low.toNat_lt]

theorem complete?_eq {data : Array UInt8} (h : 1 ≤ data.size) (crc : UInt16) :
    ∃ frame, complete? data crc = some frame ∧ complete data crc = some frame := by
  obtain ⟨command, payload, hdata⟩ : ∃ command payload, data.toList = command :: payload := by
    apply List.exists_cons_of_length_pos
    rw [Array.length_toList]
    exact h
  refine ⟨⟨command, payload, crc⟩, ?_, ?_⟩
  · rw [complete?, hdata]
    rfl
  · rw [complete, hdata]

/-- What it is to take a byte: no index leaves the data, the registers go on as the decoder does, and
are sound again; if they were not waiting, fewer bytes are due than before. -/
structure Takes (r : Registers) (byte : UInt8) (next : Registers) (given : Option Frame) : Prop where
  result : r.feed? byte = some (next, given)
  decoder : r.decoder.feed byte = (next.decoder, given)
  sound : next.Sound
  fewer : r.phase ≠ .waiting → next.due < r.due

section
variable {limit length : Nat} {crc : UInt16} {data : Array UInt8}

theorem takes_waiting (h : Sound ⟨limit, .waiting, length, crc, data⟩) (byte : UInt8) :
    ∃ next given, Takes ⟨limit, .waiting, length, crc, data⟩ byte next given := by
  by_cases hstart : byte = Frame.startByte
  · refine ⟨⟨limit, .lengthHigh, length, Crc.initial, data⟩, none, ?_, ?_, ⟨h, rfl⟩,
      fun hne => absurd rfl hne⟩
    · exact congrArg (fun next => some (next, none)) (if_pos hstart)
    · simp only [decoder, feed, State.next]
      rw [if_pos hstart]
  · refine ⟨⟨limit, .waiting, length, crc, data⟩, none, ?_, ?_, h, fun hne => absurd rfl hne⟩
    · exact congrArg (fun next => some (next, none)) (if_neg hstart)
    · simp only [decoder, feed, State.next]
      rw [if_neg hstart]

/-- a high byte of a length is all that the length says so far -/
theorem high_of_length {high : UInt8} (h : length = 256 * high.toNat) :
    UInt8.ofNat (length / 256) = high := by
  rw [h, Nat.mul_div_cancel_left _ (by decide), UInt8.ofNat_toNat]

theorem takes_lengthHigh (h : Sound ⟨limit, .lengthHigh, length, crc, data⟩) (byte : UInt8) :
    ∃ next given, Takes ⟨limit, .lengthHigh, length, crc, data⟩ byte next given := by
  obtain ⟨hdata, rfl⟩ : data = #[] ∧ crc = Crc.initial := h
  have hlength : byte.toNat <<< 8 = 256 * byte.toNat := by
    rw [Nat.shiftLeft_eq, Nat.mul_comm]
  refine ⟨⟨limit, .lengthLow, byte.toNat <<< 8, Crc.step Crc.initial byte, data⟩, none, rfl, ?_,
    ⟨hdata, byte, hlength, rfl⟩, fun _ => Nat.lt_succ_self _⟩
  show _ = ((⟨limit, .lengthLow (UInt8.ofNat (byte.toNat <<< 8 / 256)) _⟩ : Decoder), none)
  rw [high_of_length hlength]
  rfl

theorem takes_lengthLow (h : Sound ⟨limit, .lengthLow, length, crc, data⟩) (byte : UInt8) :
    ∃ next given, Takes ⟨limit, .lengthLow, length, crc, data⟩ byte next given := by
  obtain ⟨hdata, high, hlength, rfl⟩ : data = #[] ∧ ∃ high : UInt8, length = 256 * high.toNat ∧
    crc = Crc.step Crc.initial high := h
  have hdecoder : decoder ⟨limit, .lengthLow, length, Crc.step Crc.initial high, data⟩ =
      ⟨limit, .lengthLow high (Crc.step Crc.initial high)⟩ := by
    show (⟨limit, .lengthLow (UInt8.ofNat (length / 256)) _⟩ : Decoder) = _
    rw [high_of_length hlength]
  have hdeclared : length ||| byte.toNat = (Words.ofBigEndian high byte).toNat := by
    rw [hlength, length_or]
  by_cases hrefused : length ||| byte.toNat = 0 ∨ length ||| byte.toNat > limit
  · refine ⟨reset ⟨limit, .lengthLow, length, Crc.step (Crc.step Crc.initial high) byte, data⟩, none,
      congrArg (fun next => some (next, none)) (if_pos hrefused), ?_, rfl, fun _ => Nat.succ_pos _⟩
    rw [hdeclared] at hrefused
    rw [hdecoder]
    simp only [feed, State.next]
    rw [if_pos hrefused]
    rfl
  · have hrange : 1 ≤ length ||| byte.toNat ∧ length ||| byte.toNat ≤ limit := by omega
    refine ⟨⟨limit, .body, length ||| byte.toNat, Crc.step (Crc.step Crc.initial high) byte, #[]⟩,
      none, congrArg (fun next => some (next, none)) (if_neg hrefused), ?_, ?_, ?_⟩
    · rw [hdeclared] at hrefused ⊢
      rw [hdecoder]
      simp only [feed, State.next]
      rw [if_neg hrefused]
      rfl
    · refine ⟨hrange.1, hrange.2, hrange.1, high, byte, ?_, rfl⟩
      rw [hdeclared, Words.toNat_ofBigEndian]
    · intro _
      show (length ||| byte.toNat) - 0 + 2 < limit + 3
      omega

theorem takes_body (h : Sound ⟨limit, .body, length, crc, data⟩) (byte : UInt8) :
    ∃ next given, Takes ⟨limit, .body, length, crc, data⟩ byte next given := by
  obtain ⟨hpos, hlimit, hsize, high, low, hlength, hcrc⟩ : 1 ≤ length ∧ length ≤ limit ∧
    data.size < length ∧ Running length data crc := h
  have hpush : (data.push byte).size = data.size + 1 := Array.size_push ..
  have hrunning : Running length (data.push byte) (Crc.step crc byte) := by
    refine ⟨high, low, hlength, ?_⟩
    rw [hcrc, Array.toList_push, ← List.cons_append, ← List.cons_append, Crc.ofBytes_append]
    rfl
  by_cases hlast : (data.push byte).size ≥ length
  · refine ⟨⟨limit, .crcHigh, length, Crc.step crc byte, data.push byte⟩, none,
      congrArg (fun next => some (next, none)) (if_pos hlast), ?_,
      ⟨hpos, hlimit, by show (data.push byte).size = length; omega, hrunning⟩, ?_⟩
    · simp only [decoder, feed, State.next]
      rw [if_pos hlast]
    · intro _
      show 2 < length - data.size + 2
      omega
  · refine ⟨⟨limit, .body, length, Crc.step crc byte, data.push byte⟩, none,
      congrArg (fun next => some (next, none)) (if_neg hlast), ?_,
      ⟨hpos, hlimit, Nat.lt_of_not_le hlast, hrunning⟩, ?_⟩
    · simp only [decoder, feed, State.next]
      rw [if_neg hlast]
    · intro _
      show length - (data.push byte).size + 2 < length - data.size + 2
      omega

theorem takes_crcHigh (h : Sound ⟨limit, .crcHigh, length, crc, data⟩) (byte : UInt8) :
    ∃ next given, Takes ⟨limit, .crcHigh, length, crc, data⟩ byte next given := by
  by_cases hbyte : byte = (crc >>> 8).toUInt8
  · refine ⟨⟨limit, .crcLow, length, crc, data⟩, none,
      congrArg (fun next => some (next, none)) (if_pos hbyte), ?_, h, fun _ => Nat.lt_succ_self _⟩
    simp only [decoder, feed, State.next]
    rw [if_pos hbyte]
  · refine ⟨reset ⟨limit, .crcHigh, length, crc, data⟩, none,
      congrArg (fun next => some (next, none)) (if_neg hbyte), ?_, rfl, fun _ => Nat.succ_pos _⟩
    simp only [decoder, feed, State.next]
    rw [if_neg hbyte]
    rfl

theorem takes_crcLow (h : Sound ⟨limit, .crcLow, length, crc, data⟩) (byte : UInt8) :
    ∃ next given, Takes ⟨limit, .crcLow, length, crc, data⟩ byte next given := by
  obtain ⟨hpos, hlimit, hsize, hrunning⟩ : 1 ≤ length ∧ length ≤ limit ∧ data.size = length ∧
    Running length data crc := h
  obtain ⟨frame, hchecked, hframe⟩ := complete?_eq (hsize ▸ hpos) crc
  by_cases hbyte : byte = crc.toUInt8
  · refine ⟨reset ⟨limit, .crcLow, length, crc, data⟩, some frame, ?_, ?_, rfl,
      fun _ => Nat.succ_pos _⟩
    · simp only [feed?]
      rw [if_pos hbyte, hchecked]
      rfl
    · simp only [decoder, feed, State.next]
      rw [if_pos hbyte, hframe]
      rfl
  · refine ⟨reset ⟨limit, .crcLow, length, crc, data⟩, none, if_neg hbyte, ?_, rfl,
      fun _ => Nat.succ_pos _⟩
    simp only [decoder, feed, State.next]
    rw [if_neg hbyte]
    rfl

end

theorem Sound.takes (h : r.Sound) (byte : UInt8) : ∃ next given, Takes r byte next given := by
  obtain ⟨limit, phase, length, crc, data⟩ := r
  cases phase with
  | waiting => exact takes_waiting h byte
  | lengthHigh => exact takes_lengthHigh h byte
  | lengthLow => exact takes_lengthLow h byte
  | body => exact takes_body h byte
  | crcHigh => exact takes_crcHigh h byte
  | crcLow => exact takes_crcLow h byte

/-! ## any number of calls -/

theorem Takes.limit {byte : UInt8} {next : Registers} {given : Option Frame}
    (h : Takes r byte next given) : next.limit = r.limit :=
  (congrArg (fun fed => fed.1.limit) h.decoder).symm

theorem run?_feed {byte : UInt8} {next last : Registers} {given : Option Frame}
    {later : List (Option Frame)} {rest : List Call} (hfeed : r.feed? byte = some (next, given))
    (hrest : next.run? rest = some (last, later)) :
    r.run? (.feed byte :: rest) = some (last, given :: later) := by
  rw [run?, hfeed]
  show (do let (last, later) ← next.run? rest; some (last, given :: later)) = _
  rw [hrest]
  rfl

theorem run?_reset {last : Registers} {later : List (Option Frame)} {rest : List Call}
    (hrest : r.reset.run? rest = some (last, later)) :
    r.run? (.reset :: rest) = some (last, none :: later) := by
  rw [run?, hrest]
  rfl

/-- any number of calls find every index within the data, and do what they do to the decoder -/
theorem Sound.run (h : r.Sound) (calls : List Call) :
    ∃ last, r.run? calls = some (last, (r.decoder.run calls).2) ∧
      last.decoder = (r.decoder.run calls).1 ∧ last.Sound ∧ last.limit = r.limit := by
  induction calls generalizing r with
  | nil => exact ⟨r, rfl, rfl, h, rfl⟩
  | cons call rest ih =>
    cases call with
    | feed byte =>
      obtain ⟨next, given, htakes⟩ := h.takes byte
      obtain ⟨last, hrun, hdecoder, hlast, hlimit⟩ := ih htakes.sound
      have hrest : r.decoder.run (.feed byte :: rest) =
          ((next.decoder.run rest).1, given :: (next.decoder.run rest).2) := by
        simp only [Decoder.run, htakes.decoder]
      rw [hrest]
      exact ⟨last, run?_feed htakes.result hrun, hdecoder, hlast, hlimit.trans htakes.limit⟩
    | reset =>
      obtain ⟨last, hrun, hdecoder, hlast, hlimit⟩ := ih (reset_sound r)
      exact ⟨last, run?_reset hrun, hdecoder, hlast, hlimit⟩

/-- enough bytes lead past a moment at which the registers are waiting -/
theorem Sound.escapes (h : r.Sound) {bytes : List UInt8} (hdue : r.due ≤ bytes.length) :
    ∃ front back, bytes = front ++ back ∧
      ∃ reached given, r.run? (front.map .feed) = some (reached, given) ∧
        reached.phase = .waiting ∧ reached.Sound := by
  -- on the bytes; each of them makes fewer due
  induction bytes generalizing r with
  | nil =>
    refine ⟨[], [], rfl, r, [], rfl, ?_, h⟩
    apply Decidable.of_not_not
    intro hne
    exact absurd hdue (Nat.not_le_of_lt (due_pos hne))
  | cons byte rest ih =>
    by_cases hphase : r.phase = .waiting
    · exact ⟨[], byte :: rest, rfl, r, [], rfl, hphase, h⟩
    · obtain ⟨next, given, htakes⟩ := h.takes byte
      have hnext : next.due ≤ rest.length := by
        have hfewer := htakes.fewer hphase
        rw [List.length_cons] at hdue
        omega
      obtain ⟨front, back, hbytes, reached, later, hrun, hwaiting, hreached⟩ := ih htakes.sound hnext
      refine ⟨byte :: front, back, ?_, reached, given :: later, ?_, hwaiting, hreached⟩
      · rw [hbytes, List.cons_append]
      · exact run?_feed htakes.result hrun

theorem run?_append {front back : List Call} {middle last : Registers}
    {given later : List (Option Frame)} (hfront : r.run? front = some (middle, given))
    (hback : middle.run? back = some (last, later)) :
    r.run? (front ++ back) = some (last, given ++ later) := by
  induction front generalizing r given with
  | nil =>
    cases hfront
    exact hback
  | cons call rest ih =>
    cases call with
    | feed byte =>
      rw [run?, Option.bind_eq_bind, Option.bind_eq_some_iff] at hfront
      obtain ⟨⟨next, first⟩, hfeed, hrest⟩ := hfront
      rw [Option.bind_eq_bind, Option.bind_eq_some_iff] at hrest
      obtain ⟨⟨reached, more⟩, hreached, hsame⟩ := hrest
      cases hsame
      exact run?_feed hfeed (ih hreached)
    | reset =>
      rw [run?, Option.bind_eq_bind, Option.bind_eq_some_iff] at hfront
      obtain ⟨⟨reached, more⟩, hreached, hsame⟩ := hfront
      cases hsame
      exact run?_reset (ih hreached)

/-- bytes that cannot open a frame leave waiting registers as they are -/
theorem run?_quiet (hwaiting : r.phase = .waiting) {bytes : List UInt8}
    (h : Frame.startByte ∉ bytes) : ∃ given, r.run? (bytes.map .feed) = some (r, given) := by
  induction bytes with
  | nil => exact ⟨[], rfl⟩
  | cons byte rest ih =>
    have hbyte : byte ≠ Frame.startByte := fun hsame => h (hsame ▸ List.mem_cons_self)
    obtain ⟨given, hrest⟩ := ih fun hmem => h (List.mem_cons_of_mem _ hmem)
    have hfeed : r.feed? byte = some (r, none) := by
      simp only [feed?, hwaiting]
      rw [if_neg hbyte]
    exact ⟨none :: given, run?_feed hfeed hrest⟩

/-! ## the law -/

/-- What holds of the registers of a decoder at any time. -/
structure Stands (r : Registers) (decoder : Decoder) : Prop where
  shows : r.decoder = decoder
  sound : r.Sound
  within : r.data.size ≤ r.length
  /-- whatever comes, among so many bytes there is a moment at which they are waiting -/
  escapes : ∀ bytes : List UInt8, bytes.length = r.limit + 4 → ∃ front back, bytes = front ++ back ∧
    ∃ reached given, r.run? (front.map .feed) = some (reached, given) ∧ reached.phase = .waiting
  /-- and if none of the bytes can open a frame, they are waiting behind all of them -/
  quiet : ∀ bytes : List UInt8, bytes.length = r.limit + 4 → Frame.startByte ∉ bytes →
    ∃ reached given, r.run? (bytes.map .feed) = some (reached, given) ∧ reached.phase = .waiting

theorem Sound.stands (h : r.Sound) : r.Stands r.decoder := by
  refine ⟨rfl, h, h.size_le, ?_, ?_⟩
  · intro bytes hlength
    obtain ⟨front, back, hbytes, reached, given, hrun, hwaiting, -⟩ :=
      h.escapes (hlength ▸ h.due_le)
    exact ⟨front, back, hbytes, reached, given, hrun, hwaiting⟩
  · intro bytes hlength hquiet
    obtain ⟨front, back, rfl, reached, given, hrun, hwaiting, -⟩ :=
      h.escapes (hlength ▸ h.due_le)
    have hback : Frame.startByte ∉ back := fun hmem => hquiet (List.mem_append_right _ hmem)
    obtain ⟨later, hrest⟩ := run?_quiet hwaiting hback
    refine ⟨reached, given ++ later, ?_, hwaiting⟩
    rw [List.map_append]
    exact run?_append hrun hrest

end Registers

/-- **The registers of a decoder.**  However a decoder for any limit is fed and reset, no index leaves
its data, and its registers go together: nothing is stored while it waits for a start byte; the data
of a frame stays within the declared length, which is within the limit; and the checksum is that of
the length and of the data so far.  No bytes keep it from waiting for longer than the limit and four
more. -/
theorem registers_stand (limit : Nat) (calls : List Call) :
    ∃ registers, (Registers.fresh limit).run? calls =
        some (registers, ((withLimit limit).run calls).2) ∧
      registers.limit = max 1 (min limit 65535) ∧
      registers.Stands ((withLimit limit).run calls).1 := by
  have hfresh : (Registers.fresh limit).decoder = withLimit limit := rfl
  obtain ⟨registers, hrun, hdecoder, hsound, hlimit⟩ := (Registers.fresh_sound limit).run calls
  rw [hfresh] at hrun hdecoder
  exact ⟨registers, hrun, hlimit, hdecoder ▸ hsound.stands⟩

-- a frame for the smallest limit, damaged in its last byte, takes as many bytes as can be behind its
-- start byte
example :
    (((Registers.fresh 1).run? ([0x5A, 0, 1, 7, 0x92, 0x32].map .feed)).map fun reached =>
      reached.1.phase) = some .waiting ∧
    (((Registers.fresh 1).run? ([0x5A, 0, 1, 7, 0x92].map .feed)).map fun reached =>
      reached.1.phase) = some .crcLow := by
  decide +kernel

end CameraPower.Decoder
