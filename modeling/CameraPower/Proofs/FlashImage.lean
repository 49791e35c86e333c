import CameraPower.Proofs.BootloaderSafety
import CameraPower.Proofs.FlashMemory

/-!
# What an update leaves in the flash

A controller that obeys every request and answers it somehow.  An update of it that succeeds leaves
the image in its regions, erased bytes where the image has none, and all else as it was.

* `Memory.obey`  what a request does to a flash, by the bytes of its payload;
* `obeying`      a controller with such a flash, whatever else it does;
* `memory_run`   the flash after an update that succeeded, byte by byte.
-/

namespace CameraPower

open Flash (Bounded InRegion Memory PageOfRegions Plan Record Write byteAt erased)

/-! ## a flash that obeys -/

/-- the number that bytes make, low byte first -/
def Words.toNat : List UInt8 → Nat
  | [] => 0
  | byte :: rest => byte.toNat + 256 * toNat rest

theorem Words.toNat_littleEndian32 (word : UInt32) :
    Words.toNat (Words.littleEndian32 word) = word.toNat := by
  have hword := word.toNat_lt
  unfold Words.littleEndian32
  simp only [Words.toNat, UInt32.toNat_toUInt8, UInt32.toNat_shiftRight, UInt32.reduceToNat,
    Nat.shiftRight_eq_div_pow, Nat.reduceMod, Nat.reducePow]
  omega

/-- What a request does to a flash.  The erasure of a page carries its word address; a write carries
a size, its word address, two more bytes, and then the contents of its page. -/
def Flash.Memory.obey (memory : Memory) (request : Request) : Memory :=
  if request.command = Command.erasePage then
    memory.erase (2 * Words.toNat (request.payload.take 4))
  else if request.command = Command.writeData then
    memory.program (2 * Words.toNat ((request.payload.drop 1).take 4))
      ((request.payload.drop 7).take 128)
  else memory

namespace Update

theorem obey_erasePage (memory : Memory) (payload : List UInt8) :
    memory.obey ⟨Command.erasePage, payload⟩ =
      memory.erase (2 * Words.toNat (payload.take 4)) :=
  if_pos rfl

theorem obey_writeData (memory : Memory) (payload : List UInt8) :
    memory.obey ⟨Command.writeData, payload⟩ =
      memory.program (2 * Words.toNat ((payload.drop 1).take 4)) ((payload.drop 7).take 128) :=
  (if_neg (show Command.writeData ≠ Command.erasePage by decide)).trans (if_pos rfl)

theorem obey_erase (memory : Memory) {page : UInt32} (h : page.toNat % 128 = 0) :
    memory.obey (eraseStage page).request = memory.erase page.toNat := by
  have hword : (Words.littleEndian32 (Flash.wordAddress page)).take 4 =
      Words.littleEndian32 (Flash.wordAddress page) := rfl
  rw [eraseStage, obey_erasePage, hword, Words.toNat_littleEndian32, Flash.two_mul_wordAddress h]

theorem obey_write (memory : Memory) {write : Write} (h : write.page.toNat % 128 = 0) :
    memory.obey (writeStage write).request = memory.write write := by
  let payload := 32 :: Words.littleEndian32 write.word ++ [0, 0] ++ write.data.toList
  have hword : (payload.drop 1).take 4 = Words.littleEndian32 write.word := rfl
  have hdata : (payload.drop 7).take 128 = write.data.toList :=
    List.take_of_length_le (Nat.le_of_eq Vector.length_toList)
  have hpage : 2 * write.word.toNat = write.page.toNat := Flash.two_mul_wordAddress h
  rw [writeStage, obey_writeData, hword, hdata, Words.toNat_littleEndian32, hpage, Memory.write]

theorem foldl_obey_erase (memory : Memory) (pages : List UInt32)
    (h : ∀ page ∈ pages, page.toNat % 128 = 0) :
    ((pages.map eraseStage).map Stage.request).foldl Memory.obey memory =
      (pages.map UInt32.toNat).foldl Memory.erase memory := by
  induction pages generalizing memory with
  | nil => rfl
  | cons page pages ih =>
    obtain ⟨hpage, hrest⟩ := List.forall_mem_cons.mp h
    rw [List.map_cons, List.map_cons, List.foldl_cons, obey_erase memory hpage, ih _ hrest]
    rfl

theorem foldl_obey_write (memory : Memory) {writes : List Write}
    (h : ∀ write ∈ writes, write.page.toNat % 128 = 0) :
    ((writes.map writeStage).map Stage.request).foldl Memory.obey memory =
      writes.foldl Memory.write memory := by
  induction writes generalizing memory with
  | nil => rfl
  | cons write writes ih =>
    obtain ⟨hpage, hrest⟩ := List.forall_mem_cons.mp h
    rw [List.map_cons, List.map_cons, List.foldl_cons, obey_write memory hpage, ih _ hrest]
    rfl

theorem foldl_obey_stages (memory : Memory) (running : Bool) {plan : Plan}
    (hpages : ∀ write ∈ plan.writes, PageOfRegions write.page.toNat) :
    ((stages running plan).map Stage.request).foldl Memory.obey memory =
      plan.writes.foldl Memory.write
        ((Flash.pagesInOrder.map UInt32.toNat).foldl Memory.erase memory) := by
  have hopening : ((opening running).map Stage.request).foldl Memory.obey memory = memory := by
    cases running <;> rfl
  have herase := foldl_obey_erase memory Flash.pagesInOrder
    fun page hpage => (Flash.mem_pagesInOrder.mp hpage).1
  have hwrite := foldl_obey_write ((Flash.pagesInOrder.map UInt32.toNat).foldl Memory.erase memory)
    fun write hmem => (hpages write hmem).1
  simp only [stages, List.map_append, List.foldl_append]
  rw [hopening, herase, hwrite]
  rfl

/-! ## a controller with such a flash -/

section
variable {σ α : Type}

/-- A controller that obeys every request and answers it.  What it answers, and what else becomes
of it, is up to `reply` and `sleep`. -/
def obeying (reply : σ × Memory → Request → σ × Frame) (sleep : σ → Nat → σ) :
    Peer (σ × Memory) where
  ask s request := (((reply s request).1, s.2.obey request), .ok (reply s request).2)
  wait s ms := (sleep s.1 ms, s.2)

/-- a conversation with it does to the flash what its requests do, and each of them is answered -/
theorem over_obeying (reply : σ × Memory → Request → σ × Frame) (sleep : σ → Nat → σ)
    (s : σ × Memory) (d : Dialogue α) :
    (d.over (obeying reply sleep) s).peer.2 =
      (d.over (obeying reply sleep) s).requests.foldl Memory.obey s.2 ∧
    ∀ exchanged ∈ (d.over (obeying reply sleep) s).exchanges,
      ∃ state, exchanged.answer = .ok (reply state exchanged.request).2 := by
  induction d generalizing s with
  | done a => exact ⟨rfl, fun exchanged h => absurd h List.not_mem_nil⟩
  | ask request next ih =>
    obtain ⟨hmemory, hanswered⟩ := ih (.ok (reply s request).2)
      ((reply s request).1, s.2.obey request)
    exact ⟨hmemory, List.forall_mem_cons.mpr ⟨⟨s, rfl⟩, hanswered⟩⟩
  | pause ms next ih => exact ih (sleep s.1 ms, s.2)

end

/-! ## the flash after an update -/

theorem Course.requests_eq {front : List Stage} {exchanges : List Exchanged}
    (h : Course front exchanges none) :
    exchanges.map Exchanged.request = front.map Stage.request := by
  refine h.requests_isPrefix.eq_of_length ?_
  rw [List.length_map, List.length_map, h.complete.1]

theorem requests_run {σ : Type} {peer : Peer σ} {s : σ} {settle : Nat} {records : List Record}
    {plan : Plan} {report : Report} (hplan : Plan.of? records = .ok plan)
    (hok : ((run settle records).over peer s).result = .ok report) :
    ∃ running, ((run settle records).over peer s).requests =
      (stages running plan).map Stage.request := by
  rw [over_run hplan] at hok ⊢
  have hfollows : Follows peer s (carryOut settle plan) _ _ := carryOut_follows settle plan
  rcases hfollows with ⟨_, hcourse, -, -⟩ | ⟨stage, fault, -, hresult⟩
  · exact ⟨_, hcourse.requests_eq⟩
  · rw [hresult] at hok
    cases hok

section
variable {σ : Type} {reply : σ × Memory → Request → σ × Frame} {sleep : σ → Nat → σ}
  {s : σ × Memory} {settle : Nat} {records : List Record} {plan : Plan} {report : Report}

theorem memory_run (hlen : Bounded records) (hplan : Plan.of? records = .ok plan)
    (hok : ((run settle records).over (obeying reply sleep) s).result = .ok report) (a : Nat) :
    ((run settle records).over (obeying reply sleep) s).peer.2 a =
      records.foldl (fun byte record => byte &&& record.byte a)
        (if InRegion a then erased else s.2 a) := by
  have hmemory := (over_obeying reply sleep s (run settle records).run).1
  obtain ⟨running, hrequests⟩ := requests_run hplan hok
  have hwrites : plan.writes = records.flatMap Record.writes := by
    rw [(Plan.of?_eq_ok hlen hplan).2]
  have hfits : ∀ record ∈ records, record.Placed → record.Fits :=
    fun record hmem => Plan.fits_of_placed hlen hplan hmem
  have hfold : ((run settle records).over (obeying reply sleep) s).peer.2 =
      plan.writes.foldl Memory.write
        ((Flash.pagesInOrder.map UInt32.toNat).foldl Memory.erase s.2) := by
    rw [← foldl_obey_stages s.2 running fun write hmem => Plan.page_of_mem hlen hplan hmem,
      ← hrequests]
    exact hmemory
  rw [hfold, hwrites, Flash.foldl_records _ hfits, Flash.foldl_erase_pagesInOrder]

/-- only the query needs more of its reply than that it comes -/
theorem least_of_mem {running : Bool} {stage : Stage} (h : stage ∈ stages running plan) :
    stage = queryStage ∨ stage.least = 0 := by
  rcases List.mem_append.mp h with h | h
  · cases running with
    | true => exact Or.inl (List.mem_singleton.mp h)
    | false =>
      rcases List.mem_cons.mp h with h | h
      · exact Or.inl h
      · rw [List.mem_singleton.mp h]
        exact Or.inr rfl
  rcases List.mem_append.mp h with h | h
  · obtain ⟨page, -, rfl⟩ := List.mem_map.mp h
    exact Or.inr rfl
  rcases List.mem_append.mp h with h | h
  · obtain ⟨write, -, rfl⟩ := List.mem_map.mp h
    exact Or.inr rfl
  · rw [List.mem_singleton.mp h]
    exact Or.inr rfl

/-- no stage fails when the query is answered with at least one byte -/
theorem run_obeying_ok (hplan : Plan.of? records = .ok plan)
    (hreply : ∀ state, (reply state queryStage.request).2.payload ≠ []) :
    ∃ report, ((run settle records).over (obeying reply sleep) s).result = .ok report := by
  have hanswered := (over_obeying reply sleep s (run settle records).run).2
  have hkeeps := over_run_keepsToCourse (obeying reply sleep) s settle records
  cases hresult : ((run settle records).over (obeying reply sleep) s).result with
  | ok report => exact ⟨report, rfl⟩
  | error error =>
    obtain ⟨before, stage, later, earlier, answer, fault, hstages, hexchanges, -, -, hbad, -⟩ :=
      hkeeps.failed plan error hplan hresult
    obtain ⟨state, hstate⟩ := hanswered ⟨stage.request, answer⟩ (by
      show _ ∈ ((run settle records).over (obeying reply sleep) s).exchanges
      rw [hexchanges]
      simp)
    have hanswer : answer = .ok (reply state stage.request).2 := hstate
    have hmem : stage ∈ before ++ stage :: later := by simp
    rw [← hstages] at hmem
    have hlong : stage.least ≤ (reply state stage.request).2.payload.length := by
      rcases least_of_mem hmem with rfl | hzero
      · exact List.length_pos_iff.mpr (hreply state)
      · rw [hzero]
        exact Nat.zero_le _
    rw [hanswer, Stage.fault?, if_neg (Nat.not_lt.mpr hlong)] at hbad
    cases hbad

end

/-! ## the law -/

/-- **What an update leaves in the flash** of a controller that obeys: every record that starts in a
region is there, the rest of the regions is erased, all else is as it was, and the application was
started last.  Records that start outside the regions are left out, also where they run into one. -/
theorem run_leaves_image {σ : Type} (reply : σ × Memory → Request → σ × Frame)
    (sleep : σ → Nat → σ) (rest : σ) (memory : Memory) (settle : Nat) {records : List Record}
    {plan : Plan} (hlen : Bounded records) (hplan : Plan.of? records = .ok plan)
    (hapart : records.Pairwise Record.Apart) :
    let held := (run settle records).over (obeying reply sleep) (rest, memory)
    ((∀ state, (reply state ⟨Command.isInBootloader, []⟩).2.payload ≠ []) →
      ∃ report, held.result = .ok report) ∧
    ∀ report, held.result = .ok report →
      (∀ record ∈ records, record.Placed → ∀ i (h : i < record.data.length),
        held.peer.2 (record.address.toNat + i) = record.data[i]) ∧
      (∀ a, InRegion a → (∀ record ∈ records, record.Placed → ¬ record.Covers a) →
        held.peer.2 a = 0xFF) ∧
      (∀ a, ¬ InRegion a → held.peer.2 a = memory a) ∧
      held.requests.getLast? = some ⟨Command.jumpToProgram, []⟩ := by
  intro held
  refine ⟨run_obeying_ok hplan, fun report hok => ?_⟩
  have hmemory := memory_run hlen hplan hok
  have hinside : ∀ record ∈ records, record.Placed → ∀ a, record.Covers a → InRegion a :=
    fun record hmem hplaced a hcovers =>
      (Plan.fits_of_placed hlen hplan hmem hplaced).inRegion_of_covers hcovers
  refine ⟨fun record hmem hplaced i hi => ?_, fun a hin hnone => ?_, fun a hout => ?_, ?_⟩
  · have hcovers : record.Covers (record.address.toNat + i) :=
      ⟨Nat.le_add_right .., Nat.add_lt_add_left hi _⟩
    have hin := hinside record hmem hplaced _ hcovers
    rw [hmemory, if_pos hin, Flash.foldl_byte_of_covers hapart hmem hplaced hcovers,
      Flash.erased_and, Flash.byteAt_add hi]
  · rw [hmemory a, if_pos hin, Flash.foldl_byte_of_not_covers hnone]
    rfl
  · have hnone : ∀ record ∈ records, record.Placed → ¬ record.Covers a :=
      fun record hmem hplaced hcovers => hout (hinside record hmem hplaced a hcovers)
    rw [hmemory a, if_neg hout, Flash.foldl_byte_of_not_covers hnone]
  · obtain ⟨running, hrequests⟩ := requests_run hplan hok
    rw [hrequests]
    simp [stages, startStage]

/-- a controller that says that its bootloader is running, whatever it is asked -/
def ready : Unit × Memory → Request → Unit × Frame :=
  fun s request => (s.1, ⟨request.command, [1], 0⟩)

/-- a record that goes over a page boundary, and one in front of the bootloader -/
def twoRecords : List Record := [⟨0x1C7E, [1, 2, 3, 4]⟩, ⟨0x03FF, [5]⟩]

theorem run_leaves_image_two_records :
    ∃ plan report, Bounded twoRecords ∧ Plan.of? twoRecords = .ok plan ∧
      twoRecords.Pairwise Record.Apart ∧
      ((run 0 twoRecords).over (obeying ready fun rest _ => rest) ((), fun _ => 0)).result =
        .ok report ∧
      ((run 0 twoRecords).over (obeying ready fun rest _ => rest) ((), fun _ => 0)).peer.2 0x1C80 =
        3 := by
  have hlen : Bounded twoRecords := by simp [Bounded, twoRecords]
  have hapart : twoRecords.Pairwise Record.Apart := by
    unfold twoRecords
    rw [List.pairwise_pair]
    intro _ _ a ⟨h1, h2⟩
    simp [Record.Covers] at h1 h2
    omega
  obtain ⟨plan, hplan⟩ : ∃ plan, Plan.of? twoRecords = .ok plan := ⟨_, rfl⟩
  obtain ⟨hok, hleft⟩ :=
    run_leaves_image ready (fun rest _ => rest) () (fun _ => 0) 0 hlen hplan hapart
  obtain ⟨report, hreport⟩ := hok fun _ => List.cons_ne_nil 1 []
  refine ⟨plan, report, hlen, hplan, hapart, hreport, ?_⟩
  exact (hleft report hreport).1 ⟨0x1C7E, [1, 2, 3, 4]⟩ (List.mem_cons_self ..) (by decide) 2
    (by decide)

/-- A record that runs into a region from outside puts nothing there: it is no use to ask that every
byte of the regions be that of any record that has one for it. -/
theorem run_leaves_out_straddling :
    ¬ ∀ (records : List Record) (plan : Plan) (memory : Memory) (report : Report),
      Bounded records → Plan.of? records = .ok plan → records.Pairwise Record.Apart →
      ((run 0 records).over (obeying ready fun rest _ => rest) ((), memory)).result = .ok report →
      ∀ record ∈ records, ∀ a, InRegion a → record.Covers a →
        ((run 0 records).over (obeying ready fun rest _ => rest) ((), memory)).peer.2 a =
          byteAt record.address.toNat record.data a := by
  intro h
  -- the last eight bytes of this record are addressed to the application
  let record : Record := ⟨0x1BF8, [0, 1, 2, 3, 4, 5, 6, 7, 8, 9, 10, 11, 12, 13, 14, 15]⟩
  have hlen : Bounded [record] := by simp [Bounded, record]
  have hplan : Plan.of? [record] = .ok ⟨[], 1⟩ := rfl
  obtain ⟨report, hok⟩ : ∃ report, ((run 0 [record]).over (obeying ready fun rest _ => rest)
      ((), fun _ => 0)).result = .ok report :=
    run_obeying_ok hplan fun _ => List.cons_ne_nil 1 []
  have hbyte := h [record] ⟨[], 1⟩ (fun _ => 0) report hlen hplan (List.pairwise_singleton ..) hok
    record (List.mem_cons_self ..) 0x1C00 (by decide) (by simp [Record.Covers, record])
  rw [memory_run hlen hplan hok] at hbyte
  revert hbyte
  decide

end Update
end CameraPower
