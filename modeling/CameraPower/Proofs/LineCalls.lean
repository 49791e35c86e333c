import CameraPower.Proofs.ClientLines
import Mathlib.Data.List.Induction

/-!
# Calls for one line after another

A reader is called for the next line again and again, while the input comes in chunks.  A call reads
the chunks that are there and waits for more; who has called may give up waiting at any time, and call
again.  Nothing of a line that has begun is lost by that, and nothing of it gets into another line.

* `LineReader.read`        what a call finds in the chunks that are there;
* `LineReader.Calls`       a reader, the chunks that are there, and what the calls came to;
* `LineReader.read_cases`  a call;
* `LineReader.TellsLines`  what the calls tell;
* `LineReader.tells_lines` whatever happens, they tell the lines of the input, and then its end.
-/

namespace CameraPower

/-- text is what it is in UTF-8, and short enough -/
theorem ClientLine.ofBytes_eq_text_iff (bytes : List UInt8) (line : String) :
    ofBytes bytes = .text line ↔ bytes.length ≤ maxSize ∧ line.toUTF8 = ⟨bytes.toArray⟩ := by
  unfold ofBytes String.fromUTF8?
  split
  · next hlong => simp [Nat.not_le_of_gt hlong]
  · next hshort =>
    rw [and_iff_right (Nat.le_of_not_gt hshort)]
    split
    · next text htext =>
      split at htext
      · cases htext
        rw [text.injEq, ← String.toByteArray_inj, eq_comm]
        rfl
      · cases htext
    · next htext =>
      split at htext
      · cases htext
      · next hinvalid =>
        refine iff_of_false nofun ?_
        intro hline
        exact hinvalid (hline ▸ line.isValidUTF8)

namespace LineReader

/-! ## calls -/

/-- what a call comes to -/
inductive Result where
  | line (line : ClientLine)
  | ended
  deriving DecidableEq, Repr

/-- What a call finds in the chunks that are there, unless it has to wait; then the reader and the
chunks that it leaves. -/
def read (reader : LineReader) (ended : Bool) :
    List (List UInt8) → Option Result × LineReader × List (List UInt8)
  | [] =>
    match reader.next [] ended with
    | .line line rest => (some (.line line), {}, [rest])
    | .more reader => (none, reader, [])
    | .ended => (some .ended, reader, [])
  | chunk :: chunks =>
    match reader.next chunk false with
    | .line line rest => (some (.line line), {}, rest :: chunks)
    | .more reader => reader.read ended chunks
    | .ended => (some .ended, reader, chunks)

inductive Event where
  | chunk (bytes : List UInt8)
  | inputEnded
  | call
  /-- the call that waits is given up -/
  | cancel

structure Calls where
  reader : LineReader := {}
  /-- what has come in and is not read yet -/
  chunks : List (List UInt8) := []
  inputEnded : Bool := false
  waiting : Bool := false
  results : List Result := []

namespace Calls

/-- goes on with the call that waits, if there is one -/
def look (calls : Calls) : Calls :=
  if calls.waiting then
    match calls.reader.read calls.inputEnded calls.chunks with
    | (none, reader, chunks) => { calls with reader, chunks }
    | (some result, reader, chunks) =>
      { calls with reader, chunks, waiting := false, results := calls.results ++ [result] }
  else calls

def step (calls : Calls) : Event → Calls
  | .chunk bytes =>
    if calls.inputEnded then calls else { calls with chunks := calls.chunks ++ [bytes] }.look
  | .inputEnded => { calls with inputEnded := true }.look
  | .call => { calls with waiting := true }.look
  | .cancel => { calls with waiting := false }

def run (events : List Event) : Calls :=
  events.foldl step {}

theorem run_concat (events : List Event) (event : Event) :
    run (events ++ [event]) = (run events).step event := by
  rw [run, List.foldl_append]
  rfl

end Calls

/-! ## the input -/

def Event.endsInput : Event → Bool
  | .inputEnded => true
  | _ => false

def Event.bytes : Event → List UInt8
  | .chunk bytes => bytes
  | _ => []

def isOver (events : List Event) : Bool :=
  events.any Event.endsInput

/-- all the bytes that come before the end of the input -/
def input : List Event → List UInt8
  | [] => []
  | event :: rest => if event.endsInput then [] else event.bytes ++ input rest

theorem isOver_concat (events : List Event) (event : Event) :
    isOver (events ++ [event]) = (isOver events || event.endsInput) := by
  simp [isOver]

theorem input_concat (events : List Event) (event : Event) :
    input (events ++ [event]) = input events ++ if isOver events then [] else event.bytes := by
  induction events with
  | nil => cases event <;> simp [input, isOver, Event.endsInput, Event.bytes]
  | cons first rest ih =>
    cases hends : first.endsInput with
    | true => simp [input, isOver, hends]
    | false =>
      have hover : isOver (first :: rest) = isOver rest := by simp [isOver, hends]
      rw [List.cons_append, input, input, hends, ih, hover]
      simp

/-- the lines that were told before the end of the input was -/
def upToEnd : List Result → List ClientLine
  | .line line :: rest => line :: upToEnd rest
  | _ => []

theorem upToEnd_append {results : List Result} (h : .ended ∉ results) (more : List Result) :
    upToEnd (results ++ more) = upToEnd results ++ upToEnd more := by
  induction results with
  | nil => rfl
  | cons result rest ih =>
    rw [List.mem_cons, not_or] at h
    cases result with
    | line line => rw [List.cons_append, upToEnd, ih h.2, upToEnd, List.cons_append]
    | ended => exact absurd rfl h.1

theorem upToEnd_concat_ended (results : List Result) :
    upToEnd (results ++ [.ended]) = upToEnd results := by
  induction results with
  | nil => rfl
  | cons result rest ih =>
    cases result with
    | line line => rw [List.cons_append, upToEnd, ih, upToEnd]
    | ended => rfl

theorem length_upToEnd {results : List Result} (h : .ended ∉ results) :
    (upToEnd results).length = results.length := by
  induction results with
  | nil => rfl
  | cons result rest ih =>
    rw [List.mem_cons, not_or] at h
    cases result with
    | line line => rw [upToEnd, List.length_cons, ih h.2, List.length_cons]
    | ended => exact absurd rfl h.1

/-! ## one call -/

/-- What a call can come to, with the lines of all that is `unread`, whatever more of it comes. -/
inductive Reads (unread : List UInt8) (ended : Bool) :
    Option Result × LineReader × List (List UInt8) → Prop
  | line (line : ClientLine) (rest : List (List UInt8))
    (lines : ∀ (more : List UInt8) (finished : Bool), (ended = true → more = [] ∧ finished = true) →
      ClientLine.ofInput (unread ++ more) finished =
        line :: ClientLine.ofInput (rest.flatten ++ more) finished) :
    Reads unread ended (some (.line line), {}, rest)
  | waits (reader : LineReader) (holds : reader.Holds unread) (goesOn : ended = false) :
    Reads unread ended (none, reader, [])
  | ended (reader : LineReader) (holds : reader.Holds []) (nothing : unread = [])
    (atEnd : ended = true) : Reads unread ended (some .ended, reader, [])

theorem Holds.read_cases {reader : LineReader} {begun : List UInt8} (h : reader.Holds begun)
    (ended : Bool) (chunks : List (List UInt8)) :
    Reads (begun ++ chunks.flatten) ended (reader.read ended chunks) := by
  induction chunks generalizing reader begun with
  | nil =>
    have hnexts := h.next_cases [] ended
    rw [List.flatten_nil, read]
    cases hnext : reader.next [] ended with
    | line line rest =>
      rw [hnext] at hnexts
      cases hnexts with
      | line _ _ lines => exact .line line [rest] (by simpa using lines)
    | more reader' =>
      rw [hnext] at hnexts
      cases hnexts with
      | more _ holds goesOn => exact .waits reader' holds goesOn
    | ended =>
      rw [hnext] at hnexts
      cases hnexts with
      | ended nothing atEnd =>
        obtain rfl : begun = [] := List.append_eq_nil_iff.mp nothing |>.1
        exact .ended reader h rfl atEnd
  | cons chunk chunks ih =>
    have hnexts := h.next_cases chunk false
    rw [List.flatten_cons, ← List.append_assoc, read]
    cases hnext : reader.next chunk false with
    | line line rest =>
      rw [hnext] at hnexts
      cases hnexts with
      | line _ _ lines =>
        refine .line line (rest :: chunks) ?_
        intro more finished _
        rw [List.append_assoc, lines (chunks.flatten ++ more) finished nofun, List.flatten_cons,
          List.append_assoc]
    | more reader' =>
      rw [hnext] at hnexts
      cases hnexts with
      | more _ holds _ => exact ih holds
    | ended =>
      rw [hnext] at hnexts
      cases hnexts with
      | ended _ atEnd => cases atEnd

/-! ## all calls -/

/-- The calls have told the lines of what has been read, and the reader has begun the line after
them. -/
structure Standing (events : List Event) (calls : Calls) : Prop where
  inputEnded : calls.inputEnded = isOver events
  rest : ∃ begun, calls.reader.Holds begun ∧
    (.ended ∈ calls.results → isOver events = true ∧ begun ++ calls.chunks.flatten = []) ∧
    ∀ (more : List UInt8) (finished : Bool),
      (isOver events = true → more = [] ∧ finished = true) →
      ClientLine.ofInput (input events ++ more) finished =
        upToEnd calls.results ++ ClientLine.ofInput (begun ++ calls.chunks.flatten ++ more) finished

/-- a call waits only when there is nothing that it could tell -/
def Calls.Settled (calls : Calls) : Prop :=
  calls.waiting = true → calls.chunks = [] ∧ calls.inputEnded = false

section
variable {events : List Event} {calls : Calls}

theorem standing_start : Standing [] {} :=
  ⟨rfl, [], holds_nil, nofun, fun _ _ _ => rfl⟩

theorem Standing.plain (h : Standing events calls) {event : Event} (hends : event.endsInput = false)
    (hbytes : event.bytes = []) (waiting : Bool) :
    Standing (events ++ [event]) { calls with waiting } := by
  have hover : isOver (events ++ [event]) = isOver events := by simp [isOver_concat, hends]
  have hinput : input (events ++ [event]) = input events := by simp [input_concat, hbytes]
  refine ⟨hover ▸ h.inputEnded, ?_⟩
  rw [hover, hinput]
  exact h.rest

theorem Standing.chunk (h : Standing events calls) (hgoesOn : isOver events = false)
    (bytes : List UInt8) : Standing (events ++ [.chunk bytes])
      { calls with chunks := calls.chunks ++ [bytes] } := by
  have hover : isOver (events ++ [.chunk bytes]) = false := by
    simp [isOver_concat, hgoesOn, Event.endsInput]
  have hinput : input (events ++ [.chunk bytes]) = input events ++ bytes := by
    simp [input_concat, hgoesOn, Event.bytes]
  obtain ⟨begun, hholds, hended, hrest⟩ := h.rest
  rw [hgoesOn] at hended hrest
  refine ⟨hover ▸ hgoesOn ▸ h.inputEnded, begun, hholds, ?_, ?_⟩
  · intro hmem
    cases (hended hmem).1
  · intro more finished _
    have hmore := hrest (bytes ++ more) finished nofun
    rw [hinput, List.append_assoc, hmore]
    simp

theorem Standing.chunk_behind (h : Standing events calls) (hover : isOver events = true)
    (bytes : List UInt8) : Standing (events ++ [.chunk bytes]) calls := by
  have hover' : isOver (events ++ [.chunk bytes]) = isOver events := by
    simp [isOver_concat, Event.endsInput]
  have hinput : input (events ++ [.chunk bytes]) = input events := by simp [input_concat, hover]
  refine ⟨hover' ▸ h.inputEnded, ?_⟩
  rw [hover', hinput]
  exact h.rest

theorem Standing.ends (h : Standing events calls) :
    Standing (events ++ [.inputEnded]) { calls with inputEnded := true } := by
  have hover : isOver (events ++ [.inputEnded]) = true := by
    simp [isOver_concat, Event.endsInput]
  have hinput : input (events ++ [.inputEnded]) = input events := by
    simp [input_concat, Event.bytes]
  obtain ⟨begun, hholds, hended, hrest⟩ := h.rest
  refine ⟨hover.symm, begun, hholds, ?_, ?_⟩
  · intro hmem
    exact ⟨hover, (hended hmem).2⟩
  · intro more finished hlast
    obtain ⟨rfl, rfl⟩ := hlast hover
    rw [hinput]
    exact hrest [] true fun _ => ⟨rfl, rfl⟩

theorem Standing.look (h : Standing events calls) :
    Standing events calls.look ∧ calls.look.Settled := by
  obtain ⟨begun, hholds, hended, hrest⟩ := h.rest
  unfold Calls.look
  split
  · have hreads := hholds.read_cases calls.inputEnded calls.chunks
    cases hread : calls.reader.read calls.inputEnded calls.chunks with
    | mk result left =>
      rw [hread, h.inputEnded] at hreads
      cases hreads with
      | line line rest lines =>
        -- behind the end of the input there is no line
        have hnone : .ended ∉ calls.results := by
          intro hmem
          obtain ⟨hover, hnothing⟩ := hended hmem
          have hline := lines [] true fun _ => ⟨rfl, rfl⟩
          rw [hnothing] at hline
          cases hline
        dsimp only
        refine ⟨⟨h.inputEnded, [], holds_nil, ?_, ?_⟩, nofun⟩
        · intro hmem
          simp [hnone] at hmem
        · intro more finished hlast
          rw [hrest more finished hlast, lines more finished hlast, upToEnd_append hnone]
          simp [upToEnd]
      | waits reader holds goesOn =>
        dsimp only
        refine ⟨⟨h.inputEnded, _, holds, ?_, ?_⟩, fun _ => ⟨rfl, h.inputEnded.trans goesOn⟩⟩
        · simpa using hended
        · simpa using hrest
      | ended reader holds nothing atEnd =>
        dsimp only
        refine ⟨⟨h.inputEnded, [], holds, fun _ => ⟨atEnd, rfl⟩, ?_⟩, nofun⟩
        intro more finished hlast
        rw [hrest more finished hlast, nothing, upToEnd_concat_ended]
        rfl
  · next hidle => exact ⟨h, fun hwaiting => absurd hwaiting hidle⟩

theorem Standing.step (h : Standing events calls) (hsettled : calls.Settled) (event : Event) :
    Standing (events ++ [event]) (calls.step event) ∧ (calls.step event).Settled := by
  cases event with
  | chunk bytes =>
    cases hover : isOver events with
    | true =>
      rw [Calls.step, if_pos (h.inputEnded.trans hover)]
      exact ⟨h.chunk_behind hover bytes, hsettled⟩
    | false =>
      rw [Calls.step, if_neg (by simp [h.inputEnded, hover])]
      exact (h.chunk hover bytes).look
  | inputEnded => exact h.ends.look
  | call => exact (h.plain rfl rfl true).look
  | cancel => exact ⟨h.plain rfl rfl false, nofun⟩

theorem standing_run (events : List Event) :
    Standing events (Calls.run events) ∧ (Calls.run events).Settled := by
  induction events using List.reverseRecOn with
  | nil => exact ⟨standing_start, nofun⟩
  | append_singleton events event ih =>
    rw [Calls.run_concat]
    exact ih.1.step ih.2 event

end

/-! ## what the calls tell -/

theorem Holds.length_kept {reader : LineReader} {begun : List UInt8} (h : reader.Holds begun) :
    reader.kept.length ≤ ClientLine.maxSize := by
  rw [h.kept]
  by_cases hlong : begun.length > ClientLine.maxSize
  · simp [keep, hlong]
  · have hshort : begun.length ≤ ClientLine.maxSize := Nat.le_of_not_gt hlong
    simpa [keep, hlong] using hshort

/-- What the calls come to, against the lines of the input. -/
structure TellsLines (events : List Event) (calls : Calls) (lines : List ClientLine) : Prop where
  /-- the lines in their order, none left out and none twice -/
  inOrder : upToEnd calls.results <+: lines
  /-- the end of the input when there are no more -/
  ended : .ended ∈ calls.results → isOver events = true ∧ upToEnd calls.results = lines
  /-- a call has to wait only for what has not come -/
  waits : calls.waiting = true → isOver events = false ∧ upToEnd calls.results = lines
  kept : calls.reader.kept.length ≤ ClientLine.maxSize

theorem tellsLines_run (events : List Event) :
    TellsLines events (Calls.run events)
      (ClientLine.ofInput (input events) (isOver events)) := by
  obtain ⟨hstanding, hsettled⟩ := standing_run events
  obtain ⟨begun, hholds, hended, hrest⟩ := hstanding.rest
  have hlines := hrest [] (isOver events) fun hover => ⟨rfl, hover⟩
  rw [List.append_nil, List.append_nil] at hlines
  refine ⟨⟨_, hlines.symm⟩, ?_, ?_, hholds.length_kept⟩
  · intro hmem
    obtain ⟨hover, hnothing⟩ := hended hmem
    rw [hlines, hnothing, hover]
    exact ⟨rfl, (List.append_nil _).symm⟩
  · intro hwaiting
    obtain ⟨hchunks, hgoesOn⟩ := hsettled hwaiting
    have hover : isOver events = false := hstanding.inputEnded ▸ hgoesOn
    rw [hlines, hchunks, hover, List.flatten_nil, List.append_nil,
      ClientLine.ofInput_unfinished hholds.unfinished]
    simp

/-- behind the end of the input a call comes to something at once -/
theorem length_results_call {events : List Event} (hover : isOver events = true) :
    (Calls.run (events ++ [.call])).results.length = (Calls.run events).results.length + 1 := by
  have hstanding := (standing_run events).1
  obtain ⟨begun, hholds, -, -⟩ := hstanding.rest
  have hreads := hholds.read_cases (Calls.run events).inputEnded (Calls.run events).chunks
  rw [Calls.run_concat, Calls.step, Calls.look, if_pos rfl]
  cases hread : (Calls.run events).reader.read (Calls.run events).inputEnded
      (Calls.run events).chunks with
  | mk result left =>
    rw [hread, hstanding.inputEnded, hover] at hreads
    cases hreads with
    | line => exact List.length_append
    | waits _ _ goesOn => cases goesOn
    | ended => exact List.length_append

theorem calls_behind {events : List Event} (hover : isOver events = true) (count : Nat) :
    isOver (events ++ List.replicate count .call) = true ∧
      input (events ++ List.replicate count .call) = input events ∧
      count ≤ (Calls.run (events ++ List.replicate count .call)).results.length := by
  induction count with
  | zero => simp [hover]
  | succ count ih =>
    obtain ⟨hover, hinput, hcount⟩ := ih
    rw [List.replicate_succ', ← List.append_assoc]
    refine ⟨?_, ?_, ?_⟩
    · rw [isOver_concat, hover, Bool.true_or]
    · rw [input_concat, hover, if_pos rfl, List.append_nil, hinput]
    · rw [length_results_call hover]
      exact Nat.succ_le_succ hcount

theorem ended_told {events : List Event} (hover : isOver events = true) {count : Nat}
    (hcount : (ClientLine.ofInput (input events) true).length < count) :
    .ended ∈ (Calls.run (events ++ List.replicate count .call)).results := by
  obtain ⟨hover', hinput, hmany⟩ := calls_behind hover count
  have htells := tellsLines_run (events ++ List.replicate count .call)
  rw [hover', hinput] at htells
  by_contra hnone
  have hfew := htells.inOrder.length_le
  rw [length_upToEnd hnone] at hfew
  omega

/-- **The calls tell the lines of the input.**  However the input comes in chunks, and wherever calls
are given up: the calls tell the lines that the pieces between the newlines are, and then that there are
no more.  Behind the end of the input no call waits, so this is told as soon as there has been one call
more than there are lines. -/
theorem tells_lines (events : List Event) :
    let lines := ClientLine.ofInput (input events) (isOver events)
    TellsLines events (Calls.run events) lines ∧
      (isOver events = true → ∀ count, lines.length < count →
        .ended ∈ (Calls.run (events ++ List.replicate count .call)).results) ∧
      ∀ bytes line, ClientLine.ofBytes bytes = .text line ↔
        bytes.length ≤ 256 ∧ line.toUTF8 = ⟨bytes.toArray⟩ := by
  intro lines
  refine ⟨tellsLines_run events, ?_, ClientLine.ofBytes_eq_text_iff⟩
  intro hover count hcount
  refine ended_told hover ?_
  rwa [← hover]

end LineReader
end CameraPower
