import CameraPower.IntelHex
import CameraPower.Proofs.PlanArithmetic
import CameraPower.Proofs.UpdateCourse

/-!
# The bootloader is never touched

An update erases and writes whole pages of its regions only, and writes no page that it has not
erased before, whoever answers it.  This holds of every image of `Bounded` records, and so of every
image that was read from a file.

* `IntelHex.bounded_of_parse?`  records of a file are short;
* `Plan.of?_skipping`           records outside the regions are counted and no more;
* `Course.passed`               stages that were passed were answered;
* `SparesBootloader`            what the exchanges of an update must be.
-/

namespace CameraPower

/-! ## records of a file -/

namespace IntelHex

theorem length_of_fields? {bytes : List UInt8} {line : Line} (h : fields? bytes = .ok line) :
    line.data.length ≤ 255 := by
  match bytes, h with
  | [], h => cases h
  | [_], h => cases h
  | [_, _], h => cases h
  | [_, _, _], h => cases h
  | count :: high :: low :: type :: rest, h =>
    simp only [fields?] at h
    by_cases hshort : rest = []
    · rw [if_pos hshort] at h
      cases h
    by_cases hcount : rest.length ≠ count.toNat + 1
    · rw [if_neg hshort, if_pos hcount] at h
      cases h
    rw [if_neg hshort, if_neg hcount] at h
    split at h
    · cases h
    · cases h
      have hsize := count.toNat_lt
      have htake : (rest.take count.toNat).length ≤ count.toNat := List.length_take_le ..
      show (rest.take count.toNat).length ≤ 255
      omega

theorem length_of_decode? {text : List Char} {line : Line} (h : Line.decode? text = .ok line) :
    line.data.length ≤ 255 := by
  unfold Line.decode? at h
  split at h
  · split at h
    · cases h
    · exact length_of_fields? h
  · cases h

theorem data_of_effect? {base : UInt32} {line : Line} {record : Flash.Record}
    (h : line.effect? base = .ok (.record record)) : record.data = line.data := by
  unfold Line.effect? at h
  split at h
  · split at h
    · cases h
    · cases h
      rfl
  · cases h
  · split at h <;> cases h
  · split at h <;> cases h
  · cases h

theorem length_of_line {text : List Char} {base : UInt32} {record : Flash.Record}
    (h : (Line.decode? text).bind (Line.effect? base) = .ok (.record record)) :
    record.data.length ≤ 255 := by
  cases hline : Line.decode? text with
  | error fault =>
    rw [hline] at h
    cases h
  | ok line =>
    rw [hline] at h
    rw [data_of_effect? h]
    exact length_of_decode? hline

theorem length_of_records? {number : Nat} {base : UInt32} {raws : List (List Char)}
    {records : List Flash.Record} (h : records? number base raws = .ok records) :
    ∀ record ∈ records, record.data.length ≤ 255 := by
  induction raws generalizing number base records with
  | nil =>
    cases h
    exact fun record hrecord => absurd hrecord List.not_mem_nil
  | cons raw rest ih =>
    unfold records? at h
    split at h
    · exact ih h
    · split at h
      · cases h
      · cases h
        exact fun record hrecord => absurd hrecord List.not_mem_nil
      · exact ih h
      · exact ih h
      · rename_i hline
        split at h
        · cases h
        · rename_i hrest
          cases h
          exact List.forall_mem_cons.mpr ⟨length_of_line hline, ih hrest⟩

theorem bounded_of_parse? {text : String} {records : List Flash.Record}
    (h : parse? text = .ok records) : Flash.Bounded records := by
  intro record hrecord
  have := length_of_records? h record hrecord
  omega

end IntelHex

/-! ## records outside the regions -/

namespace Flash.Plan

/-- what a record does to a plan has nothing to do with how many were skipped -/
theorem add_skipped (writes : List Write) (skipped : Nat) {record : Record}
    (h : ¬ record.Outside) :
    add ⟨writes, skipped⟩ record =
      (add ⟨writes, 0⟩ record).map fun plan => { plan with skipped := skipped } := by
  unfold add
  by_cases hne : record.data = []
  · rw [if_pos hne, if_pos hne]
    rfl
  · rw [if_neg hne, if_neg hne]
    cases hregion : regionOf? record.address with
    | none =>
      refine absurd ⟨hne, ?_⟩ h
      rw [← isSome_regionOf?, hregion]
      simp
    | some region =>
      by_cases hlast : record.lastAddress > region.last
      · simp only [if_pos hlast]
        rfl
      · simp only [if_neg hlast]
        rfl

theorem add_outside (plan : Plan) {record : Record} (h : record.Outside) :
    plan.add record = .ok { plan with skipped := plan.skipped + 1 } := by
  have hregion : regionOf? record.address = none := by
    rw [← Option.not_isSome_iff_eq_none, isSome_regionOf?]
    exact h.2
  unfold add
  rw [if_neg h.1, hregion]

theorem foldlM_add_skipping (records : List Record) (writes : List Write) (skipped : Nat) :
    records.foldlM add ⟨writes, skipped⟩ =
      ((records.filter fun record => ¬ record.Outside).foldlM add ⟨writes, 0⟩).map fun plan =>
        { plan with skipped := skipped + records.countP fun record => decide record.Outside } := by
  induction records generalizing writes skipped with
  | nil => rfl
  | cons record records ih =>
    by_cases h : record.Outside
    · have hcount : skipped + (record :: records).countP (fun record => decide record.Outside) =
          skipped + 1 + records.countP fun record => decide record.Outside := by
        rw [List.countP_cons_of_pos (by simpa using h)]
        omega
      rw [List.foldlM_cons, add_outside _ h, List.filter_cons_of_neg (by simpa using h), hcount]
      exact ih writes (skipped + 1)
    · rw [List.foldlM_cons, List.filter_cons_of_pos (by simpa using h),
        List.countP_cons_of_neg (by simpa using h), List.foldlM_cons, add_skipped writes skipped h]
      cases hadd : add ⟨writes, 0⟩ record with
      | error error => rfl
      | ok plan =>
        have hplan : plan = { plan with skipped := 0 } := by
          have hadd' := add_skipped writes 0 h
          rw [hadd] at hadd'
          exact Except.ok.inj hadd'
        rw [hplan]
        exact ih plan.writes skipped

/-- Records outside the regions are counted; all else is as if they were not there. -/
theorem of?_skipping (records : List Record) :
    of? records = (of? (records.filter fun record => ¬ record.Outside)).map fun plan =>
      { plan with skipped := records.countP fun record => decide record.Outside } := by
  have := foldlM_add_skipping records [] 0
  simp only [Nat.zero_add] at this
  exact this

end Flash.Plan

/-! ## what an update may send -/

namespace Update

open Flash (Bounded PageOfRegions Plan Record Write)

/-- the stages that a course has passed were answered -/
theorem Course.passed {front back : List Stage} {exchanges before after : List Exchanged}
    {exchanged : Exchanged} {failure : Option (Stage × Error)}
    (h : Course (front ++ back) exchanges failure) (hsplit : exchanges = before ++ exchanged :: after)
    (hnot : ∀ stage ∈ front, stage.request ≠ exchanged.request) :
    ∀ stage ∈ front, ∃ frame, ⟨stage.request, .ok frame⟩ ∈ before := by
  -- the first stage has the first exchange, which is not `exchanged` and so lies in `before`
  induction front generalizing exchanges before with
  | nil => exact fun stage hstage => absurd hstage List.not_mem_nil
  | cons first front ih =>
    have hfirst : first.request ≠ exchanged.request := hnot first (List.mem_cons_self ..)
    cases h with
    | @next _ _ answer exchanges _ good more =>
      cases before with
      | nil =>
        rw [← (List.cons.inj hsplit).1] at hfirst
        exact absurd rfl hfirst
      | cons head before =>
        obtain ⟨rfl, htail⟩ := List.cons.inj hsplit
        have hrest := ih more htail fun stage hstage => hnot stage (List.mem_cons_of_mem _ hstage)
        refine List.forall_mem_cons.mpr ⟨?_, fun stage hstage => ?_⟩
        · cases answer with
          | error error => cases good
          | ok frame => exact ⟨frame, List.mem_cons_self ..⟩
        · obtain ⟨frame, hframe⟩ := hrest stage hstage
          exact ⟨frame, List.mem_cons_of_mem _ hframe⟩
    | stop bad =>
      cases before with
      | nil =>
        rw [← (List.cons.inj hsplit).1] at hfirst
        exact absurd rfl hfirst
      | cons head before =>
        have hnil := (List.cons.inj hsplit).2
        simp at hnil

theorem exists_course {σ : Type} (peer : Peer σ) (s : σ) (settle : Nat) {records : List Record}
    {plan : Plan} (hplan : Plan.of? records = .ok plan) :
    ∃ running failure,
      Course (stages running plan) ((run settle records).over peer s).exchanges failure := by
  rw [over_run hplan]
  have hfollows : Follows peer s (carryOut settle plan) _ _ := carryOut_follows settle plan
  rcases hfollows with ⟨report, hcourse, -, -⟩ | ⟨stage, fault, hcourse, -⟩
  · exact ⟨_, _, hcourse⟩
  · exact ⟨_, _, hcourse⟩

theorem opening_command {running : Bool} {stage : Stage} (h : stage ∈ opening running) :
    stage.request.command ≠ Command.erasePage ∧ stage.request.command ≠ Command.writeData := by
  have hquery : queryStage.request.command ≠ Command.erasePage ∧
      queryStage.request.command ≠ Command.writeData := by decide
  have henter : enterStage.request.command ≠ Command.erasePage ∧
      enterStage.request.command ≠ Command.writeData := by decide
  cases running with
  | true =>
    rw [List.mem_singleton.mp h]
    exact hquery
  | false =>
    rcases List.mem_cons.mp h with rfl | h
    · exact hquery
    · rw [List.mem_singleton.mp h]
      exact henter

theorem front_command {running : Bool} {stage : Stage}
    (h : stage ∈ opening running ++ Flash.pagesInOrder.map eraseStage) :
    stage.request.command ≠ Command.writeData := by
  rcases List.mem_append.mp h with h | h
  · exact (opening_command h).2
  · obtain ⟨page, -, rfl⟩ := List.mem_map.mp h
    show Command.erasePage ≠ Command.writeData
    decide

/-- a stage erases a page of the regions, writes what the plan writes, or does neither -/
theorem mem_stages {running : Bool} {plan : Plan} {stage : Stage}
    (h : stage ∈ stages running plan) :
    (stage.request.command ≠ Command.erasePage ∧ stage.request.command ≠ Command.writeData) ∨
      (∃ page, PageOfRegions page.toNat ∧ stage = eraseStage page) ∨
      ∃ write ∈ plan.writes, stage = writeStage write := by
  rcases List.mem_append.mp h with h | h
  · exact Or.inl (opening_command h)
  rcases List.mem_append.mp h with h | h
  · obtain ⟨page, hpage, rfl⟩ := List.mem_map.mp h
    exact Or.inr (Or.inl ⟨page, Flash.mem_pagesInOrder.mp hpage, rfl⟩)
  rcases List.mem_append.mp h with h | h
  · obtain ⟨write, hwrite, rfl⟩ := List.mem_map.mp h
    exact Or.inr (Or.inr ⟨write, hwrite, rfl⟩)
  · rw [List.mem_singleton.mp h]
    refine Or.inl ?_
    decide

def erasure (page : Nat) : Request :=
  ⟨Command.erasePage, Words.littleEndian32 (UInt32.ofNat (page / 2))⟩

/-- What the exchanges of an update must be. -/
structure SparesBootloader (exchanges : List Exchanged) : Prop where
  /-- only whole pages of the regions are erased -/
  erased : ∀ exchanged ∈ exchanges, exchanged.request.command = Command.erasePage →
    ∃ page, PageOfRegions page ∧ exchanged.request = erasure page
  /-- only whole pages of the regions are written, after the controller has erased them -/
  written : ∀ before exchanged after, exchanges = before ++ exchanged :: after →
    exchanged.request.command = Command.writeData →
    ∃ page, PageOfRegions page ∧
      (∃ data : Vector UInt8 128, exchanged.request.payload =
        32 :: Words.littleEndian32 (UInt32.ofNat (page / 2)) ++ [0, 0] ++ data.toList) ∧
      ∃ frame, ⟨erasure page, .ok frame⟩ ∈ before

theorem erasure_eq (page : UInt32) : (eraseStage page).request = erasure page.toNat := by
  unfold eraseStage erasure
  rw [Flash.wordAddress_eq]

theorem sparesBootloader_of_course {running : Bool} {plan : Plan} {exchanges : List Exchanged}
    {failure : Option (Stage × Error)} (h : Course (stages running plan) exchanges failure)
    (hpages : ∀ write ∈ plan.writes, PageOfRegions write.page.toNat) :
    SparesBootloader exchanges := by
  have hstage : ∀ exchanged ∈ exchanges,
      ∃ stage ∈ stages running plan, exchanged.request = stage.request := by
    intro exchanged hmem
    have hrequest := h.requests_isPrefix.subset (List.mem_map_of_mem hmem)
    obtain ⟨stage, hin, heq⟩ := List.mem_map.mp hrequest
    exact ⟨stage, hin, heq.symm⟩
  refine ⟨fun exchanged hmem hcommand => ?_, fun before exchanged after hsplit hcommand => ?_⟩
  · obtain ⟨stage, hin, hrequest⟩ := hstage exchanged hmem
    rw [hrequest] at hcommand ⊢
    rcases mem_stages hin with hneither | ⟨page, hpage, rfl⟩ | ⟨write, -, rfl⟩
    · exact absurd hcommand hneither.1
    · exact ⟨page.toNat, hpage, erasure_eq page⟩
    · cases hcommand
  · obtain ⟨stage, hin, hrequest⟩ := hstage exchanged (by rw [hsplit]; simp)
    rw [hrequest] at hcommand
    rcases mem_stages hin with hneither | ⟨page, -, rfl⟩ | ⟨write, hwrite, rfl⟩
    · exact absurd hcommand hneither.2
    · cases hcommand
    · have hpage := hpages write hwrite
      refine ⟨write.page.toNat, hpage, ⟨write.data, ?_⟩, ?_⟩
      · rw [hrequest, ← Flash.wordAddress_eq]
        rfl
      · rw [stages, ← List.append_assoc] at h
        rw [← erasure_eq]
        refine h.passed hsplit (fun stage hfront heq => ?_) _ (List.mem_append_right _
          (List.mem_map_of_mem (Flash.mem_pagesInOrder.mpr hpage)))
        refine front_command hfront ?_
        rw [heq, hrequest]
        rfl

/-! ## the law -/

theorem over_run_sparesBootloader {σ : Type} (peer : Peer σ) (s : σ) (settle : Nat)
    {records : List Record} (h : Bounded records) :
    SparesBootloader ((run settle records).over peer s).exchanges := by
  cases hplan : Plan.of? records with
  | error error =>
    rw [over_run_refused hplan]
    refine ⟨fun exchanged hmem => absurd hmem List.not_mem_nil, fun before exchanged after hsplit => ?_⟩
    simp at hsplit
  | ok plan =>
    obtain ⟨running, failure, hcourse⟩ := exists_course peer s settle hplan
    exact sparesBootloader_of_course hcourse fun write hwrite => Plan.page_of_mem h hplan hwrite

theorem refused_iff {records : List Record} (h : Bounded records) :
    (∃ error, Plan.of? records = .error error) ↔ ∃ record ∈ records, record.Overruns := by
  rcases Plan.of?_outcome h with ⟨hover, herror⟩ | ⟨hall, hok⟩
  · exact ⟨fun _ => hover, fun _ => herror⟩
  · refine ⟨fun ⟨error, herror⟩ => ?_, fun ⟨record, hmem, hover⟩ => absurd hover (hall record hmem)⟩
    rw [hok] at herror
    cases herror

/-- **The bootloader is never touched**, whatever the image and whoever answers.  An image is refused
just when a record overruns its region; records outside the regions are counted and no more; and
planning ends without leaving the range of a word, a size or an index. -/
theorem bootloader_spared :
    (∀ text records, IntelHex.parse? text = .ok records → Bounded records) ∧
    ∀ records, Bounded records →
      (∀ (σ : Type) (peer : Peer σ) (s : σ) (settle : Nat),
        SparesBootloader ((run settle records).over peer s).exchanges) ∧
      ((∃ error, Plan.of? records = .error error) ↔ ∃ record ∈ records, record.Overruns) ∧
      Plan.of? records =
        (Plan.of? (records.filter fun record => ¬ record.Outside)).map (fun plan =>
          { plan with skipped := records.countP fun record => decide record.Outside }) ∧
      Plan.checked? records = some (Plan.of? records) :=
  ⟨fun _ _ h => IntelHex.bounded_of_parse? h, fun records h =>
    ⟨fun _ peer s settle => over_run_sparesBootloader peer s settle h, refused_iff h,
      Plan.of?_skipping records, Plan.checked?_eq h⟩⟩

/-- the law for the image of a small file, and a controller that stops answering at the last call -/
theorem bootloader_spared_file :
    IntelHex.parse? ":0400000001020304F2\n:00000001FF\n" = .ok [⟨0, [1, 2, 3, 4]⟩] ∧
      Bounded [⟨0, [1, 2, 3, 4]⟩] ∧
      SparesBootloader ((run 0 [⟨0, [1, 2, 3, 4]⟩]).over (Link.peer 0 50)
        (Link.start { answerLimit := some 131 } 144 4 : Link Nat)).exchanges := by
  have hparse : IntelHex.parse? ":0400000001020304F2\n:00000001FF\n" =
      .ok [⟨0, [1, 2, 3, 4]⟩] := rfl
  have hbounded := bootloader_spared.1 _ _ hparse
  exact ⟨hparse, hbounded, (bootloader_spared.2 _ hbounded).1 _ _ _ _⟩

end Update
end CameraPower
