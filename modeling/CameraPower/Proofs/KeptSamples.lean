import CameraPower.Proofs.LogDirectory
import CameraPower.Proofs.LogLines
import Mathlib.Data.List.Perm.Subperm

/-!
# Which samples stay in the log

A rotation goes by the names of the log files: it removes the ones that sort first, whoever wrote them
and when.  So the file that it has just begun stays if only a few sort behind it.

* `prune_present`       what a rotation leaves;
* `surplus_iff`         a listed file is too much if enough listed files sort behind it;
* `Standing`            how the log and its directory go together, whatever was logged before;
* `keeps_sample_iff`    when a sample is kept.
-/

namespace CameraPower

namespace SampleLog

open Directory

variable {log : SampleLog} {entries : List (String × Entry)} {name : String}

/-! ## what a rotation leaves -/

/-- the entries that are left when the log files that are too many have been removed -/
def remaining (log : SampleLog) (entries : List (String × Entry)) : List (String × Entry) :=
  entries.filter fun item => item.2 = .directory ∨ item.1 ∉ log.surplus (listed entries)

theorem prune_present (h : Sorted entries) :
    log.prune (.present entries) = .ok (.present (log.remaining entries)) :=
  congrArg Except.ok (removeFiles_present h _)

theorem mem_remaining {item : String × Entry} :
    item ∈ log.remaining entries ↔
      item ∈ entries ∧ (item.2 = .directory ∨ item.1 ∉ log.surplus (listed entries)) := by
  simp [remaining]

theorem listed_remaining :
    name ∈ listed (log.remaining entries) ↔ name ∈ listed entries ∧
      ((name, .directory) ∈ entries ∨ name ∉ log.surplus (listed entries)) := by
  simp only [mem_listed, mem_remaining]
  constructor
  · rintro ⟨hname, entry, hmem, rfl | hstays⟩
    · exact ⟨⟨hname, _, hmem⟩, Or.inl hmem⟩
    · exact ⟨⟨hname, entry, hmem⟩, Or.inr hstays⟩
  · rintro ⟨⟨hname, entry, hmem⟩, hdirectory | hstays⟩
    · exact ⟨hname, .directory, hdirectory, Or.inl rfl⟩
    · exact ⟨hname, entry, hmem, Or.inr hstays⟩

/-- **Which files are too many**: as many as are to be kept sort behind it, and still do when the
files have been removed. -/
theorem surplus_iff (h : Sorted entries) (hname : name ∈ listed entries) :
    name ∈ log.surplus (listed entries) ↔
      log.maxFiles ≤ ((present (log.remaining entries)).behind name).length := by
  let newest := (listed entries).drop ((listed entries).length - log.maxFiles)
  have hcut : log.surplus (listed entries) ++ newest = listed entries := List.take_append_drop ..
  have hsorted := h.listed
  rw [← hcut] at hsorted
  obtain ⟨-, hnewest, hbefore⟩ := List.pairwise_append.mp hsorted
  have hleft : Sorted (log.remaining entries) := h.filter _
  constructor
  -- behind a file that is too many stand all of the newest, and none of these is removed
  · intro hsurplus
    have hlength : newest.length = log.maxFiles := by
      have := List.length_pos_of_mem hsurplus
      rw [surplus, List.length_take] at this
      rw [List.length_drop]
      omega
    have hstay : newest ⊆ (present (log.remaining entries)).behind name := by
      intro other hother
      refine mem_behind.mpr ⟨listed_remaining.mpr ⟨?_, Or.inr fun htoo => ?_⟩, ?_⟩
      · exact hcut ▸ List.mem_append_right _ hother
      · exact lt_irrefl _ (hbefore other htoo other hother)
      · exact hbefore name hsurplus other hother
    exact hlength ▸ (List.subperm_of_subset (hnewest.imp ne_of_lt) hstay).length_le
  -- one of the newest has only others of them behind it: a removal that fails leaves names in front
  · intro hmany
    by_contra hstays
    have hmem : name ∈ newest := by
      rw [← hcut, List.mem_append] at hname
      exact hname.resolve_left hstays
    have hnewer : name :: (present (log.remaining entries)).behind name ⊆ newest := by
      refine List.cons_subset.mpr ⟨hmem, fun other hother => ?_⟩
      obtain ⟨hlisted, hlt⟩ := mem_behind.mp hother
      have hother := (listed_remaining.mp hlisted).1
      rw [← hcut, List.mem_append] at hother
      exact hother.resolve_left fun htoo => lt_asymm hlt (hbefore other htoo name hmem)
    have hnodup : (name :: (present (log.remaining entries)).behind name).Nodup := by
      refine List.nodup_cons.mpr ⟨fun hself => lt_irrefl _ (mem_behind.mp hself).2, ?_⟩
      exact (hleft.listed.imp ne_of_lt).filter _
    have hfew := (List.subperm_of_subset hnodup hnewer).length_le
    rw [List.length_cons, List.length_drop] at hfew
    omega

/-! ## the log between two samples -/

/-- where the file is that a log writes to -/
inductive Place (limit : Nat) (entries : List (String × Entry)) (name : String) : Prop
  | kept (lines : List String) (mem : (name, .file lines) ∈ entries)
    (few : ((present entries).behind name).length < limit)
  | gone (absent : ∀ entry, (name, entry) ∉ entries)
    (many : limit ≤ ((present entries).behind name).length)

/-- how the log and the directory go together, whatever has been logged before -/
structure Standing (log : SampleLog) (entries : List (String × Entry)) : Prop where
  sorted : Sorted entries
  room : 0 < log.maxFiles
  named : ∀ name, log.current = some name → isLogName name = true
  place : ∀ name, log.current = some name → Place log.maxFiles entries name

theorem isLogName_fileName (localTime : String) (sequence : Nat) :
    isLogName (fileName localTime sequence) = true := by
  rw [isLogName, Bool.and_eq_true, List.isPrefixOf_iff_prefix, List.isSuffixOf_iff_suffix]
  simp only [fileName, String.toList_append]
  constructor
  · simp only [List.append_assoc]
    exact List.prefix_append ..
  · exact List.suffix_append ..

/-- the log that has begun a file -/
def begun (log : SampleLog) (name : String) : SampleLog :=
  { log with current := some name, records := 0, sequence := log.sequence + 1 }

/-- a file that has been begun stays, or is removed at once -/
theorem place_begun (h : Sorted entries) (hname : isLogName name = true) :
    Place log.maxFiles (log.remaining (put name (.file []) entries)) name := by
  let created := put name (.file []) entries
  have hsorted : Sorted created := h.put
  have hmem : (name, Entry.file []) ∈ created := h.mem_put.mpr (Or.inl rfl)
  have hlisted : name ∈ listed created := mem_listed.mpr ⟨hname, _, hmem⟩
  have hiff : name ∈ log.surplus (listed created) ↔ _ := surplus_iff hsorted hlisted
  by_cases hsurplus : name ∈ log.surplus (listed created)
  · refine .gone (fun entry hentry => ?_) (hiff.mp hsurplus)
    obtain ⟨hentry, rfl | hstays⟩ := mem_remaining.mp hentry
    · cases hsorted.unique hmem hentry
    · exact hstays hsurplus
  · exact .kept [] (mem_remaining.mpr ⟨hmem, Or.inr hsurplus⟩)
      (Nat.lt_of_not_le fun hmany => hsurplus (hiff.mpr hmany))

theorem rotate_spec (h : Standing log entries) (localTime : String) :
    let name := fileName localTime log.sequence
    (∃ left, log.rotate (.present entries) localTime = (log.begun name, .present left, .ok ()) ∧
        Standing (log.begun name) left) ∨
      entries.lookup name = some .directory ∧ log.rotate (.present entries) localTime =
        ({ log with current := none, sequence := log.sequence + 1 }, .present entries,
          .error (.io .isDirectory)) := by
  intro name
  by_cases hdirectory : entries.lookup name = some .directory
  · refine Or.inr ⟨hdirectory, ?_⟩
    simp only [rotate, createFile, name, hdirectory]
  · have hcreated : (present entries).createFile name =
        .ok (.present (put name (.file []) entries)) := by
      simp only [createFile]
    have hname : isLogName name = true := isLogName_fileName ..
    refine Or.inl ⟨(log.begun name).remaining (put name (.file []) entries), ?_, ?_⟩
    · simp only [rotate, ← show name = fileName localTime log.sequence from rfl, hcreated]
      rw [← begun, prune_present h.sorted.put]
    · refine ⟨h.sorted.put.filter _, h.room, ?_, ?_⟩
      · rintro other ⟨⟩
        exact hname
      · rintro other ⟨⟩
        exact place_begun h.sorted hname

/-! ## what is kept -/

/-- what has become of a line: `log` and `directory` are what writing it has led to -/
structure Logged (limit : Nat) (log : SampleLog) (directory : Directory) (name text : String) :
    Prop where
  current : log.current = some name
  /-- it is the last line of a listed file if only a few listed files sort behind that -/
  kept : directory.Ends name text ↔ (directory.behind name).length < limit
  /-- otherwise the file is not there -/
  lost : directory.find? name = none ↔ limit ≤ (directory.behind name).length

theorem write_of_current (h : log.current = some name) (directory : Directory) (text : String) :
    log.write directory text =
      ({ log with records := log.records + 1 }, directory.append name text) := by
  obtain ⟨_, _, current, _, _⟩ := log
  cases h
  rfl

theorem write_spec (h : Standing log entries) (hcurrent : log.current = some name) (text : String) :
    ∃ after left, log.write (.present entries) text = (after, .present left) ∧
      after.maxFiles = log.maxFiles ∧ Standing after left ∧
      Logged log.maxFiles after (.present left) name text := by
  cases h.place name hcurrent with
  | kept lines mem few =>
    let left := put name (.file (lines ++ [text])) entries
    have hlookup : entries.lookup name = some (.file lines) := h.sorted.lookup_iff.mpr mem
    have hmem : (name, Entry.file (lines ++ [text])) ∈ left := h.sorted.mem_put.mpr (Or.inl rfl)
    have hfind : (present left).find? name = some (.file (lines ++ [text])) :=
      (h.sorted.put).lookup_iff.mpr hmem
    have hbehind : (present left).behind name = (present entries).behind name :=
      behind_congr (h.sorted.keys_put mem) name
    have hends : (present left).Ends name text :=
      ⟨listed left, lines, rfl, mem_listed.mpr ⟨h.named name hcurrent, _, hmem⟩, hfind⟩
    have hplace : ∀ other, log.current = some other → Place log.maxFiles left other := by
      intro other hother
      obtain rfl : name = other := Option.some.inj (hcurrent.symm.trans hother)
      exact .kept (lines ++ [text]) hmem (hbehind ▸ few)
    refine ⟨{ log with records := log.records + 1 }, left, ?_, rfl,
      ⟨h.sorted.put, h.room, h.named, hplace⟩, hcurrent, ?_, ?_⟩
    · simp only [write_of_current hcurrent, append, hlookup, left]
    · exact iff_of_true hends (hbehind ▸ few)
    · exact iff_of_false (by simp [hfind]) (Nat.not_le_of_lt (hbehind ▸ few))
  | gone absent many =>
    have hfind : (present entries).find? name = none := by
      cases hlookup : entries.lookup name with
      | none => exact hlookup
      | some found => exact (absent found (h.sorted.lookup_iff.mp hlookup)).elim
    have hlookup : entries.lookup name = none := hfind
    refine ⟨{ log with records := log.records + 1 }, entries, ?_, rfl,
      ⟨h.sorted, h.room, h.named, h.place⟩, hcurrent, ?_, ?_⟩
    · simp only [write_of_current hcurrent, append, hlookup]
    · refine iff_of_false ?_ (Nat.not_lt_of_le many)
      rintro ⟨files, earlier, -, -, hline⟩
      rw [hfind] at hline
      cases hline
    · exact iff_of_true hfind many

/-- a sample that is logged -/
structure Sample where
  /-- the local time, which names the file if one is begun -/
  localTime : String
  timestamp : String
  reading : Telemetry
  deriving DecidableEq, Repr

def Sample.line (sample : Sample) : String :=
  SampleLog.line sample.timestamp sample.reading

def take (log : SampleLog) (directory : Directory) (sample : Sample) :
    SampleLog × Directory × Except Error Unit :=
  log.log directory sample.localTime sample.timestamp sample.reading

/-- samples one after another, also behind one that could not be logged -/
def takeAll (log : SampleLog) (directory : Directory) : List Sample → SampleLog × Directory
  | [] => (log, directory)
  | sample :: rest =>
    let (log, directory, _) := log.take directory sample
    log.takeAll directory rest

/-- A sample is logged, unless a file has to be begun for it where a directory is. -/
theorem take_spec (h : Standing log entries) (sample : Sample) :
    (∃ after left, log.take (.present entries) sample = (after, .present left, .ok ()) ∧
        after.maxFiles = log.maxFiles ∧ Standing after left ∧
        ∃ name, Logged log.maxFiles after (.present left) name sample.line) ∨
      ∃ after, log.take (.present entries) sample =
          (after, .present entries, .error (.io .isDirectory)) ∧
        after.maxFiles = log.maxFiles ∧ Standing after entries ∧ log.isFull = true ∧
        entries.lookup (fileName sample.localTime log.sequence) = some .directory := by
  cases hfull : log.isFull with
  | false =>
    obtain ⟨name, hcurrent⟩ : ∃ name, log.current = some name := by
      rw [isFull, Bool.or_eq_false_iff, Option.isNone_eq_false_iff] at hfull
      exact Option.isSome_iff_exists.mp hfull.1
    obtain ⟨after, left, hwrite, hlimit, hstanding, hlogged⟩ :=
      write_spec h hcurrent sample.line
    refine Or.inl ⟨after, left, ?_, hlimit, hstanding, name, hlogged⟩
    simp only [take, SampleLog.log, hfull, Bool.false_eq_true, if_false]
    rw [← Sample.line, hwrite]
  | true =>
    rcases rotate_spec h sample.localTime with ⟨begun, hrotate, hbegun⟩ | ⟨hdirectory, hrotate⟩
    · obtain ⟨after, left, hwrite, hlimit, hstanding, hlogged⟩ :=
        write_spec hbegun rfl sample.line
      refine Or.inl ⟨after, left, ?_, hlimit, hstanding, _, hlogged⟩
      simp only [take, SampleLog.log, hfull, if_true, hrotate]
      rw [← Sample.line, hwrite]
    · let after := { log with current := none, sequence := log.sequence + 1 }
      have hstanding : Standing after entries := ⟨h.sorted, h.room, by simp [after], by simp [after]⟩
      refine Or.inr ⟨after, ?_, rfl, hstanding, rfl, hdirectory⟩
      simp only [take, SampleLog.log, hfull, if_true, hrotate, after]

theorem takeAll_spec (h : Standing log entries) (samples : List Sample) :
    ∃ after left, log.takeAll (.present entries) samples = (after, .present left) ∧
      after.maxFiles = log.maxFiles ∧ Standing after left := by
  induction samples generalizing log entries with
  | nil => exact ⟨log, entries, rfl, rfl, h⟩
  | cons sample rest ih =>
    rcases take_spec h sample with ⟨after, left, htake, hlimit, hstanding, -⟩ |
      ⟨after, htake, hlimit, hstanding, -⟩
    all_goals
      obtain ⟨last, final, htakes, hlast, hfinal⟩ := ih hstanding
      refine ⟨last, final, ?_, hlast.trans hlimit, hfinal⟩
      rw [takeAll, htake]
      exact htakes

theorem start_spec {initial directory : Directory} {maxRecords maxFiles : Nat}
    (hordered : initial.Ordered) (hstart : start maxRecords maxFiles initial = .ok (log, directory)) :
    log.maxFiles = max 1 maxFiles ∧
      ∃ entries, directory = .present entries ∧ Standing log entries := by
  cases initial with
  | blocked => cases hstart
  | missing =>
    cases hstart
    exact ⟨rfl, [], rfl, List.Pairwise.nil, by simp, by simp, by simp⟩
  | present entries =>
    cases hstart
    exact ⟨rfl, entries, rfl, hordered, by simp, by simp, by simp⟩

/-- **Which samples are kept.**  Whatever the directory held, whatever the clock said and whatever was
logged before: a sample that has been logged is the last line of a listed file if fewer listed files
than are to be kept sort behind that file, and the file is gone otherwise.  Its line tells the sample.
A sample is refused only if a file has to be begun for it where a directory is. -/
theorem keeps_sample_iff {initial directory : Directory} {maxRecords maxFiles : Nat}
    (hordered : initial.Ordered) (hstart : start maxRecords maxFiles initial = .ok (log, directory))
    (before : List Sample) (sample : Sample) :
    let (log, directory) := log.takeAll directory before
    match log.take directory sample with
    | (after, left, .ok ()) => (∃ name, Logged (max 1 maxFiles) after left name sample.line) ∧
        Tells sample.line sample.timestamp sample.reading
    | (_, _, .error error) => error = .io .isDirectory ∧ log.isFull = true ∧
        directory.find? (fileName sample.localTime log.sequence) = some .directory := by
  obtain ⟨hlimit, entries, rfl, hstanding⟩ := start_spec hordered hstart
  obtain ⟨after, left, htakes, hsame, hstanding⟩ := takeAll_spec hstanding before
  simp only [htakes]
  rw [hlimit] at hsame
  rcases take_spec hstanding sample with ⟨last, final, htake, -, -, hlogged⟩ |
    ⟨last, htake, -, -, hfull, hdirectory⟩
  · simp only [htake, ← hsame]
    exact ⟨hlogged, tells_line sample.timestamp sample.reading⟩
  · simp only [htake]
    exact ⟨trivial, hfull, hdirectory⟩

/-- a log of one file with one sample -/
def single : SampleLog :=
  { maxRecords := 1, maxFiles := 1 }

def sampleAt (hour : String) : Sample where
  localTime := "20240101_" ++ hour ++ "0000"
  timestamp := "2024-01-01T" ++ hour ++ ":00:00+00:00"
  reading := { capacityPercent := 1 }

/-- what an earlier run has left -/
def earlierRun : Directory :=
  .present [("battery_20231231_230000_0000.jsonl", .file ["old"])]

/-- a file of somebody else -/
def otherHand : Directory :=
  .present [("battery_zzz.jsonl", .file ["old"])]

/-- The clock goes on: the file of an earlier run and the first file of this one make room. -/
theorem keeps_sample_iff_clock_goes_on :
    let (log, directory) := single.takeAll earlierRun [sampleAt "08"]
    let (after, left, result) := log.take directory (sampleAt "09")
    earlierRun.Ordered ∧ start 1 1 earlierRun = .ok (single, earlierRun) ∧ result = .ok () ∧
      (∃ name, Logged 1 after left name (sampleAt "09").line ∧
        left.Ends name (sampleAt "09").line) ∧
      Tells (sampleAt "09").line "2024-01-01T09:00:00+00:00" { capacityPercent := 1 } := by
  have hordered : earlierRun.Ordered := by decide +kernel
  have hstart : start 1 1 earlierRun = .ok (single, earlierRun) := rfl
  have h := keeps_sample_iff hordered hstart [sampleAt "08"] (sampleAt "09")
  have htake : (single.takeAll earlierRun [sampleAt "08"]).1.take
      (single.takeAll earlierRun [sampleAt "08"]).2 (sampleAt "09") =
    ({ single with current := some (fileName "20240101_090000" 1), records := 1, sequence := 2 },
      .present [(fileName "20240101_090000" 1, .file [(sampleAt "09").line])], .ok ()) := by
    decide +kernel
  have hfew : ((Directory.present [(fileName "20240101_090000" 1,
      .file [(sampleAt "09").line])]).behind (fileName "20240101_090000" 1)).length < 1 := by
    decide +kernel
  simp only [htake] at h ⊢
  obtain ⟨⟨name, hlogged⟩, htells⟩ := h
  refine ⟨hordered, hstart, trivial, ⟨name, hlogged, hlogged.kept.mpr ?_⟩, htells⟩
  rw [← Option.some.inj hlogged.current]
  exact hfew

/-- A file with a later name is in the directory: the sample is in the file that makes room. -/
theorem sample_lost_behind_later_name :
    ¬ ∀ (initial directory : Directory) (log : SampleLog) (maxRecords maxFiles : Nat)
      (sample : Sample), initial.Ordered → start maxRecords maxFiles initial = .ok (log, directory) →
      match log.take directory sample with
      | (_, left, .ok ()) => ∃ name, left.Ends name sample.line
      | (_, _, .error _) => True := by
  intro h
  have hordered : otherHand.Ordered := by decide +kernel
  have hstart : start 1 1 otherHand = .ok (single, otherHand) := rfl
  have hkept := h otherHand otherHand single 1 1 (sampleAt "08") hordered hstart
  have htake : single.take otherHand (sampleAt "08") =
      ({ single with current := some (fileName "20240101_080000" 0), records := 1, sequence := 1 },
        otherHand, .ok ()) := by
    decide +kernel
  simp only [htake] at hkept
  obtain ⟨name, files, earlier, -, -, hline⟩ := hkept
  have hmem := (Directory.Sorted.lookup_iff hordered).mp hline
  obtain ⟨-, hlines⟩ := Prod.mk.inj (List.mem_singleton.mp hmem)
  have hold : earlier ++ [(sampleAt "08").line] = ["old"] := Directory.Entry.file.inj hlines
  have hline : (sampleAt "08").line ∈ ["old"] := hold ▸ List.mem_append_right _ List.mem_cons_self
  revert hline
  decide +kernel

end SampleLog
end CameraPower
