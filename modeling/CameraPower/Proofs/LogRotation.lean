import CameraPower.Proofs.KeptSamples
import CameraPower.Proofs.ListCuts
import CameraPower.Proofs.LogNames

/-!
# Rotation of the log

Logging into a fresh directory while the clock goes on.  A file is full before the next one is begun,
and its name sorts in front of the next one's.  So what a rotation removes are the oldest files, and
what is left in the directory are the last samples.

* `Dated`               a sample with the time of the clock;
* `Course`              logging as it is seen from outside, with all files that were ever begun;
* `Course.Sound`        how these files, the log and the directory go together;
* `keeps_newest_files`  which files are begun, what each has taken, and which are left.
-/

namespace CameraPower

namespace Directory

/-! ## a directory of files -/

variable {files front : List (String × List String)} {name : String}

/-- files in the order of their names -/
def Ascending (files : List (String × List String)) : Prop :=
  files.Pairwise (·.1 < ·.1)

/-- files with their lines as entries -/
def ofFiles (files : List (String × List String)) : List (String × Entry) :=
  files.map fun file => (file.1, .file file.2)

/-- a directory with the newest of some files -/
def ofNewest (limit : Nat) (files : List (String × List String)) : Directory :=
  .present (ofFiles (files.rtake limit))

theorem Ascending.newest (h : Ascending files) (limit : Nat) : Ascending (files.rtake limit) :=
  List.Pairwise.drop h

theorem Ascending.concat (h : Ascending files) (hlast : ∀ file ∈ files, file.1 < name)
    (lines : List String) : Ascending (files ++ [(name, lines)]) := by
  refine List.pairwise_append.mpr ⟨h, List.pairwise_singleton .., ?_⟩
  intro file hfile new hnew
  rw [List.mem_singleton.mp hnew]
  exact hlast file hfile

/-- what is in the last file does not matter -/
theorem Ascending.last {lines : List String} (h : Ascending (front ++ [(name, lines)]))
    (more : List String) : Ascending (front ++ [(name, more)]) := by
  obtain ⟨hfront, -, hlast⟩ := List.pairwise_append.mp h
  exact Ascending.concat hfront (fun file hfile => hlast file hfile (name, lines) List.mem_cons_self) more

theorem Ascending.sorted (h : Ascending files) : Sorted (ofFiles files) :=
  List.pairwise_map.mpr h

theorem listed_ofFiles (h : ∀ file ∈ files, isLogName file.1 = true) :
    listed (ofFiles files) = files.map Prod.fst := by
  rw [listed, ofFiles, List.map_map]
  refine List.filter_eq_self.mpr fun name hname => ?_
  obtain ⟨file, hfile, rfl⟩ := List.mem_map.mp hname
  exact h file hfile

theorem ofFiles_append (files more : List (String × List String)) :
    ofFiles (files ++ more) = ofFiles files ++ ofFiles more :=
  List.map_append

theorem ofNewest_concat {limit : Nat} (hlimit : 0 < limit) (front : List (String × List String))
    (name : String) (lines : List String) :
    ofNewest limit (front ++ [(name, lines)]) =
      .present (ofFiles (front.rtake (limit - 1)) ++ [(name, .file lines)]) := by
  obtain ⟨less, rfl⟩ : ∃ less, limit = less + 1 := ⟨limit - 1, (Nat.sub_add_cancel hlimit).symm⟩
  rw [ofNewest, List.rtake_concat_succ, ofFiles_append]
  rfl

/-- what is read from files alone -/
theorem contents_ofFiles (h : Ascending files)
    (hlogs : ∀ file ∈ files, isLogName file.1 = true) :
    (present (ofFiles files)).contents = (files.map Prod.snd).flatten := by
  have hlines : ∀ file ∈ files, (present (ofFiles files)).lines file.1 = file.2 := by
    intro file hfile
    have hfind : (present (ofFiles files)).find? file.1 = some (.file file.2) :=
      h.sorted.lookup_iff.mpr (List.mem_map_of_mem hfile)
    rw [lines, hfind]
  simp only [contents, logFiles_present, listed_ofFiles hlogs]
  rw [List.flatMap_map, List.flatMap_congr hlines, List.flatMap_def]

section
variable {limit : Nat} {lines : List String} (hlimit : 0 < limit)
  (h : Ascending (front ++ [(name, lines)]))

include hlimit h

theorem sorted_last : Sorted (ofFiles (front.rtake (limit - 1)) ++ [(name, .file lines)]) := by
  have hsorted : Sorted (ofFiles ((front ++ [(name, lines)]).rtake limit)) :=
    (h.newest limit).sorted
  have hentries := ofNewest_concat hlimit front name lines
  rw [ofNewest, Directory.present.injEq] at hentries
  rwa [hentries] at hsorted

theorem find_newest :
    (ofNewest limit (front ++ [(name, lines)])).find? name = some (.file lines) := by
  rw [ofNewest_concat hlimit]
  exact find_last (sorted_last hlimit h)

theorem append_newest (text : String) :
    (ofNewest limit (front ++ [(name, lines)])).append name text =
      ofNewest limit (front ++ [(name, lines ++ [text])]) := by
  rw [ofNewest_concat hlimit, ofNewest_concat hlimit]
  exact append_last (sorted_last hlimit h) text

end

end Directory

namespace SampleLog

open Directory

/-! ## one rotation -/

variable {log : SampleLog} {files : List (String × List String)}

/-- of files alone the newest are left -/
theorem prune_ofFiles (h : Ascending files) (hlogs : ∀ file ∈ files, isLogName file.1 = true) :
    log.prune (.present (ofFiles files)) = .ok (ofNewest log.maxFiles files) := by
  let old := files.take (files.length - log.maxFiles)
  let new := files.rtake log.maxFiles
  have hcut : old ++ new = files := List.take_append_drop ..
  have hsurplus : log.surplus (listed (ofFiles files)) = old.map Prod.fst := by
    rw [listed_ofFiles hlogs, surplus, List.length_map, List.map_take]
  rw [prune_present h.sorted, remaining, hsurplus]
  rw [← hcut] at h
  have hbefore : ∀ file ∈ old, ∀ other ∈ new, file.1 < other.1 := (List.pairwise_append.mp h).2.2
  conv_lhs => rw [← hcut, ofFiles_append, List.filter_append]
  have hold : (ofFiles old).filter (fun item => item.2 = .directory ∨ item.1 ∉ old.map Prod.fst) =
      [] := by
    refine List.filter_eq_nil_iff.mpr fun item hitem => ?_
    obtain ⟨file, hfile, rfl⟩ := List.mem_map.mp hitem
    have hmem : file.1 ∈ old.map Prod.fst := List.mem_map_of_mem hfile
    simpa using hmem
  have hnew : (ofFiles new).filter (fun item => item.2 = .directory ∨ item.1 ∉ old.map Prod.fst) =
      ofFiles new := by
    refine List.filter_eq_self.mpr fun item hitem => ?_
    obtain ⟨file, hfile, rfl⟩ := List.mem_map.mp hitem
    refine decide_eq_true (Or.inr fun hmem => ?_)
    obtain ⟨other, hother, hname⟩ := List.mem_map.mp hmem
    exact (hbefore other hother file hfile).ne hname
  rw [hold, hnew, List.nil_append]
  rfl

/-- a file is begun behind the newest ones, and the oldest of these goes if there are too many -/
theorem rotate_newest {localTime : String} (hfiles : Ascending files)
    (hlogs : ∀ file ∈ files, isLogName file.1 = true)
    (hlast : ∀ file ∈ files, file.1 < fileName localTime log.sequence) :
    let name := fileName localTime log.sequence
    log.rotate (ofNewest log.maxFiles files) localTime =
      (log.begun name, ofNewest log.maxFiles (files ++ [(name, [])]), .ok ()) := by
  intro name
  let kept := files.rtake log.maxFiles
  have hkept : ∀ file ∈ kept, file ∈ files := fun file hfile => List.mem_of_mem_drop hfile
  have hcreate : (ofNewest log.maxFiles files).createFile name =
      .ok (.present (ofFiles (kept ++ [(name, [])]))) := by
    rw [ofFiles_append]
    refine createFile_last fun item hitem => ?_
    obtain ⟨file, hfile, rfl⟩ := List.mem_map.mp hitem
    exact hlast file (hkept file hfile)
  have hprune : (log.begun name).prune (.present (ofFiles (kept ++ [(name, [])]))) =
      .ok (ofNewest log.maxFiles (files ++ [(name, [])])) := by
    rw [prune_ofFiles]
    · rw [begun, ofNewest, ofNewest, newest_append]
    · exact (hfiles.newest _).concat (fun file hfile => hlast file (hkept file hfile)) []
    · intro file hfile
      rcases List.mem_append.mp hfile with hfile | hfile
      · exact hlogs file (hkept file hfile)
      · rw [List.mem_singleton.mp hfile]
        exact isLogName_fileName ..
  simp only [rotate, ← show name = fileName localTime log.sequence from rfl, hcreate]
  rw [← begun, hprune]

/-! ## the course of a log -/

/-- a sample that is logged when the clock shows a time -/
structure Dated where
  time : LocalTime
  timestamp : String
  reading : Telemetry

def Dated.sample (dated : Dated) : Sample :=
  { localTime := dated.time.text, timestamp := dated.timestamp, reading := dated.reading }

/-- Logging as it is seen from outside: all files that were ever begun, oldest first, each with the
lines that were in it when a sample was last written, and the errors of samples that were refused. -/
structure Course where
  log : SampleLog
  directory : Directory
  files : List (String × List String) := []
  errors : List Error := []

namespace Course

/-- a file, if there is a name for it, with what is in it -/
def look (directory : Directory) (name : Option String) : List (String × List String) :=
  name.toList.map fun name => (name, directory.lines name)

/-- one sample: a full log begins one more file, any other goes on with the last one -/
def take (course : Course) (sample : Sample) : Course :=
  let (log, directory, result) := course.log.take course.directory sample
  { log, directory
    files := (if course.log.isFull then course.files else course.files.dropLast) ++
      look directory log.current
    errors := match result with
      | .error error => course.errors ++ [error]
      | .ok () => course.errors }

def run (course : Course) (samples : List Sample) : Course :=
  samples.foldl take course

/-! ## one sample -/

/-- how the log stands to the files: none yet, or it writes to the last one, and the others are full -/
inductive Writing (size : Nat) (log : SampleLog) : List (String × List String) → Prop
  | fresh (current : log.current = none) : Writing size log []
  | last (front : List (String × List String)) (name : String) (lines : List String)
    (current : log.current = some name) (records : log.records = lines.length)
    (occupied : lines ≠ []) (room : lines.length ≤ size)
    (full : ∀ file ∈ front, file.2.length = size) : Writing size log (front ++ [(name, lines)])

/-- a file is named by the time of a sample and by a number that is used up -/
def Named (done : List Dated) (files : List (String × List String)) : Prop :=
  ∀ file ∈ files, ∃ dated ∈ done, ∃ number < files.length,
    file.1 = fileName dated.time.text number

/-- how log, directory and files go together after some samples -/
structure Sound (course : Course) (size limit : Nat) (done : List Dated) : Prop where
  maxRecords : course.log.maxRecords = size
  maxFiles : course.log.maxFiles = limit
  numbered : course.log.sequence = course.files.length
  writing : Writing size course.log course.files
  ordered : Ascending course.files
  named : Named done course.files
  kept : course.directory = ofNewest limit course.files
  joined : (course.files.map Prod.snd).flatten = done.map fun dated => dated.sample.line
  accepted : course.errors = []

variable {course : Course} {size limit : Nat} {done : List Dated}

theorem look_newest (hlimit : 0 < limit) {front : List (String × List String)} {name : String}
    {lines : List String} (h : Ascending (front ++ [(name, lines)])) :
    look (ofNewest limit (front ++ [(name, lines)])) (some name) = [(name, lines)] := by
  rw [look, Option.toList_some, List.map_singleton, Directory.lines, find_newest hlimit h]

theorem Named.last {front : List (String × List String)} {name : String} {lines : List String}
    (h : Named done (front ++ [(name, lines)])) (dated : Dated) (more : List String) :
    Named (done ++ [dated]) (front ++ [(name, more)]) := by
  intro file hfile
  obtain ⟨old, hold, hname⟩ : ∃ old ∈ front ++ [(name, lines)], file.1 = old.1 := by
    rcases List.mem_append.mp hfile with hfront | hlast
    · exact ⟨file, List.mem_append_left _ hfront, rfl⟩
    · rw [List.mem_singleton.mp hlast]
      exact ⟨(name, lines), List.mem_append_right _ List.mem_cons_self, rfl⟩
  obtain ⟨earlier, hearlier, number, hnumber, hold⟩ := h old hold
  rw [List.length_append, List.length_singleton] at hnumber ⊢
  exact ⟨earlier, List.mem_append_left _ hearlier, number, hnumber, hname.trans hold⟩

theorem Named.concat {files : List (String × List String)} (h : Named done files) (dated : Dated)
    (lines : List String) : Named (done ++ [dated])
      (files ++ [(fileName dated.time.text files.length, lines)]) := by
  intro file hfile
  rw [List.length_append, List.length_singleton]
  rcases List.mem_append.mp hfile with hold | hnew
  · obtain ⟨earlier, hearlier, number, hnumber, hname⟩ := h file hold
    exact ⟨earlier, List.mem_append_left _ hearlier, number, Nat.lt_succ_of_lt hnumber, hname⟩
  · rw [List.mem_singleton.mp hnew]
    exact ⟨dated, List.mem_append_right _ List.mem_cons_self, _, Nat.lt_succ_self _, rfl⟩

theorem Sound.all_logs (h : course.Sound size limit done) :
    ∀ file ∈ course.files, isLogName file.1 = true := by
  intro file hfile
  obtain ⟨earlier, -, number, -, hname⟩ := h.named file hfile
  exact hname ▸ isLogName_fileName ..

/-- files that are full have as many lines as samples have been logged -/
theorem Sound.length_done (h : course.Sound size limit done)
    (hfull : ∀ file ∈ course.files, file.2.length = size) :
    done.length = course.files.length * size := by
  have hlengths : ∀ lines ∈ course.files.map Prod.snd, lines.length = size :=
    List.forall_mem_map.mpr hfull
  have hall := length_flatten_of_full hlengths
  rwa [h.joined, List.length_map, List.length_map] at hall

/-- the next file has a name behind all others -/
theorem Sound.name_lt (h : course.Sound size limit done) {dated : Dated}
    (hclock : ∀ earlier ∈ done, earlier.time.stamp ≤ dated.time.stamp)
    (hroom : course.files.length < 10000) : ∀ file ∈ course.files,
      file.1 < fileName dated.sample.localTime course.log.sequence := by
  intro file hfile
  obtain ⟨earlier, hearlier, number, hnumber, hname⟩ := h.named file hfile
  rw [hname, h.numbered]
  exact fileName_lt (hclock earlier hearlier) hnumber hroom

/-- what a sample finds: a last file with room, or only files that are full -/
inductive Turn (course : Course) (size : Nat) : Prop
  | room (front : List (String × List String)) (name : String) (lines : List String)
    (files : course.files = front ++ [(name, lines)]) (current : course.log.current = some name)
    (records : course.log.records = lines.length) (few : lines.length < size)
    (full : ∀ file ∈ front, file.2.length = size) (going : course.log.isFull = false)
  | none (full : ∀ file ∈ course.files, file.2.length = size) (due : course.log.isFull = true)

theorem Sound.turn (h : course.Sound size limit done) : course.Turn size := by
  have hwriting := h.writing
  generalize hfiles : course.files = files at hwriting
  cases hwriting with
  | fresh current => exact .none (by simp [hfiles]) (by simp [isFull, current])
  | last front name lines current records occupied room full =>
    rcases Nat.lt_or_ge lines.length size with hfew | hmany
    · refine .room front name lines hfiles current records hfew full ?_
      simpa [isFull, current, h.maxRecords, records] using hfew
    · refine .none ?_ (by simpa [isFull, current, h.maxRecords, records] using hmany)
      rw [hfiles, List.forall_mem_append, List.forall_mem_singleton]
      exact ⟨full, Nat.le_antisymm room hmany⟩

theorem Sound.take_room (h : course.Sound size limit done) (hlimit : 0 < limit)
    {front : List (String × List String)} {name : String} {lines : List String}
    (hfiles : course.files = front ++ [(name, lines)]) (hcurrent : course.log.current = some name)
    (hgoing : course.log.isFull = false) (sample : Sample) :
    course.take sample =
      { course with
        log := { course.log with records := course.log.records + 1 }
        directory := ofNewest limit (front ++ [(name, lines ++ [sample.line])])
        files := front ++ [(name, lines ++ [sample.line])] } := by
  have hordered : Ascending (front ++ [(name, lines)]) := hfiles ▸ h.ordered
  have hmore := hordered.last (lines ++ [sample.line])
  have htake : course.log.take course.directory sample =
      ({ course.log with records := course.log.records + 1 },
        ofNewest limit (front ++ [(name, lines ++ [sample.line])]), .ok ()) := by
    simp only [SampleLog.take, SampleLog.log, hgoing, Bool.false_eq_true, if_false]
    rw [← Sample.line, write_of_current hcurrent, h.kept, hfiles, append_newest hlimit hordered]
  simp only [take, htake, hgoing, Bool.false_eq_true, if_false, hfiles, List.dropLast_concat,
    hcurrent, look_newest hlimit hmore]

theorem Sound.take_none (h : course.Sound size limit done) (hlimit : 0 < limit) {sample : Sample}
    (hdue : course.log.isFull = true)
    (hlast : ∀ file ∈ course.files, file.1 < fileName sample.localTime course.log.sequence) :
    let name := fileName sample.localTime course.log.sequence
    course.take sample =
      { course with
        log := { course.log.begun name with records := 1 }
        directory := ofNewest limit (course.files ++ [(name, [sample.line])])
        files := course.files ++ [(name, [sample.line])] } := by
  intro name
  obtain rfl := h.maxFiles
  have hbegun : (course.log.begun name).current = some name := rfl
  have hmore : ∀ lines, Ascending (course.files ++ [(name, lines)]) := h.ordered.concat hlast
  have htake : course.log.take course.directory sample =
      ({ course.log.begun name with records := 1 },
        ofNewest course.log.maxFiles (course.files ++ [(name, [sample.line])]), .ok ()) := by
    simp only [SampleLog.take, SampleLog.log, hdue, if_true, h.kept,
      rotate_newest h.ordered h.all_logs hlast]
    rw [← Sample.line, write_of_current hbegun, append_newest hlimit (hmore [])]
    rfl
  simp only [take, htake, hdue, if_true, hbegun, look_newest hlimit (hmore [sample.line])]

/-- **One sample**: it goes behind the last line, or into a file of its own. -/
theorem Sound.take (h : course.Sound size limit done) (hsize : 0 < size) (hlimit : 0 < limit)
    (dated : Dated) (hclock : ∀ earlier ∈ done, earlier.time.stamp ≤ dated.time.stamp)
    (hfew : done.length < 10000 * size) :
    (course.take dated.sample).Sound size limit (done ++ [dated]) := by
  have hjoined := h.joined
  cases h.turn with
  | room front name lines files current records few full going =>
    rw [h.take_room hlimit files current going]
    -- the last file keeps its name, so only its lines and their count change
    have hordered := h.ordered
    have hnamed := h.named
    have hnumbered := h.numbered
    rw [files] at hjoined hordered hnamed hnumbered
    refine ⟨h.maxRecords, h.maxFiles, ?_, ?_, hordered.last _, hnamed.last dated _, rfl, ?_,
      h.accepted⟩
    · rw [List.length_append, List.length_singleton] at hnumbered ⊢
      exact hnumbered
    · refine .last front name _ current ?_ (by simp) ?_ full
      · rw [List.length_append, List.length_singleton, records]
      · rw [List.length_append, List.length_singleton]
        exact few
    · simp only [List.map_append, List.map_singleton, List.flatten_append,
        List.flatten_singleton] at hjoined ⊢
      rw [← hjoined, List.append_assoc]
  | none full due =>
    -- the files are full, so there are few of them, and the next number sorts behind theirs
    have hroom : course.files.length < 10000 :=
      Nat.lt_of_mul_lt_mul_right (h.length_done full ▸ hfew)
    have hlast := h.name_lt hclock hroom
    rw [h.take_none hlimit due hlast]
    refine ⟨h.maxRecords, h.maxFiles, ?_, ?_, h.ordered.concat hlast _, ?_, rfl, ?_, h.accepted⟩
    · show course.log.sequence + 1 = _
      rw [h.numbered, List.length_append, List.length_singleton]
    · exact .last course.files _ _ rfl rfl (by simp) hsize full
    · rw [h.numbered]
      exact h.named.concat dated _
    · simp only [List.map_append, List.map_singleton, List.flatten_append, List.flatten_singleton]
      rw [hjoined]

/-! ## all samples -/

/-- nothing has been logged into an empty directory -/
theorem sound_start (size limit : Nat) :
    Sound { log := { maxRecords := size, maxFiles := limit }, directory := .present [] }
      size limit [] :=
  ⟨rfl, rfl, rfl, .fresh rfl, List.Pairwise.nil, nofun, by simp [ofNewest, ofFiles, List.rtake],
    rfl, rfl⟩

theorem Sound.run (h : course.Sound size limit []) (hsize : 0 < size) (hlimit : 0 < limit)
    (samples : List Dated) (hclock : samples.Pairwise (·.time.stamp ≤ ·.time.stamp))
    (hfew : samples.length ≤ 10000 * size) :
    (course.run (samples.map Dated.sample)).Sound size limit samples := by
  induction samples using List.reverseRecOn with
  | nil => exact h
  | append_singleton before dated ih =>
    obtain ⟨hbefore, -, hlast⟩ := List.pairwise_append.mp hclock
    rw [List.length_append, List.length_singleton] at hfew
    have hsound := ih hbefore (by omega)
    rw [Course.run, List.map_append, List.map_singleton, List.foldl_append]
    exact hsound.take hsize hlimit dated
      (fun earlier hearlier => hlast earlier hearlier dated List.mem_cons_self) hfew

theorem Sound.filled (h : course.Sound size limit done) :
    Filled size (course.files.map Prod.snd) := by
  have hwriting := h.writing
  generalize course.files = files at hwriting
  cases hwriting with
  | fresh => exact .none
  | last front name lines _ _ occupied room full =>
    rw [List.map_append]
    exact .upTo _ lines (List.forall_mem_map.mpr full) occupied room

/-- what is read from the newest files is the end of what was logged -/
theorem Sound.contents_suffix (h : course.Sound size limit done) :
    course.directory.contents <:+ done.map fun dated => dated.sample.line := by
  let newest := course.files.rtake limit
  have hlogs : ∀ file ∈ newest, isLogName file.1 = true :=
    fun file hfile => h.all_logs file (List.mem_of_mem_drop hfile)
  have hlast : newest.map Prod.snd <:+ course.files.map Prod.snd := (List.drop_suffix _ _).map _
  rw [h.kept, ofNewest, contents_ofFiles (h.ordered.newest limit) hlogs, ← h.joined]
  exact hlast.flatten

/-- What has come of logging `lines` with `size` lines for each file and room for `limit` files. -/
structure RolledOver (course : Course) (size limit : Nat) (lines : List String) : Prop where
  /-- no sample is refused -/
  accepted : course.errors = []
  /-- as many files are begun as it takes, each with a name behind the ones before it -/
  count : course.files.length = lines.length ⌈/⌉ size
  ordered : Ascending course.files
  /-- each file has taken the lines of its turn, in order -/
  share : ∀ j file, course.files[j]? = some file → file.2 = (lines.drop (j * size)).take size
  /-- in the directory are the newest of these files, and nothing else -/
  kept : course.directory = .present (ofFiles (course.files.rtake (min limit course.files.length)))
  /-- and what is read from them is the end of what was logged -/
  contents : course.directory.contents <:+ lines

theorem Sound.rolledOver (h : course.Sound size limit done) :
    course.RolledOver size limit (done.map fun dated => dated.sample.line) where
  accepted := h.accepted
  count := by
    have hlength := h.filled.length_eq
    rwa [h.joined, List.length_map] at hlength
  ordered := h.ordered
  share := by
    intro j file hfile
    have hgroup : (course.files.map Prod.snd)[j]? = some file.2 := by
      rw [List.getElem?_map, hfile, Option.map_some]
    have hshare := h.filled.share hgroup
    rwa [h.joined] at hshare
  kept := by rw [newest_min, h.kept, ofNewest]
  contents := h.contents_suffix

end Course

/-- **Rotation and retention.**  Samples go into a fresh directory while the clock does not go back,
and there are no more files than four digits can number.  Then no sample is refused, each file takes
its share of the samples, each of them in a line that tells it, and the newest files are kept. -/
theorem keeps_newest_files (maxRecords maxFiles : Nat) {initial : Directory}
    (hfresh : initial = .missing ∨ initial = .present []) (samples : List Dated)
    (hclock : samples.Pairwise (·.time.stamp ≤ ·.time.stamp))
    (hfew : samples.length ⌈/⌉ max 1 maxRecords ≤ 10000) :
    ∃ log directory, start maxRecords maxFiles initial = .ok (log, directory) ∧
      (Course.run { log, directory } (samples.map Dated.sample)).RolledOver (max 1 maxRecords)
        (max 1 maxFiles) (samples.map fun dated => dated.sample.line) ∧
      ∀ dated ∈ samples, Tells dated.sample.line dated.timestamp dated.reading := by
  have hsize : 0 < max 1 maxRecords := by omega
  have hlimit : 0 < max 1 maxFiles := by omega
  have hstart : start maxRecords maxFiles initial =
      .ok ({ maxRecords := max 1 maxRecords, maxFiles := max 1 maxFiles }, .present []) := by
    rcases hfresh with rfl | rfl <;> rfl
  have hroom : samples.length ≤ 10000 * max 1 maxRecords := by
    have hmany := (ceilDiv_le_iff_le_mul hsize).mp hfew
    rwa [Nat.mul_comm] at hmany
  have hsound := (Course.sound_start _ _).run hsize hlimit samples hclock hroom
  exact ⟨_, _, hstart, hsound.rolledOver,
    fun dated _ => tells_line dated.timestamp dated.reading⟩

/-- a sample on the hour -/
def hourly (hour : Fin 24) : Dated where
  time :=
    { year := 2024, month := 1, day := 1, hour, minute := 0, second := 0
      year_lt := by decide, month_le := by decide, day_le := by decide, hour_lt := hour.isLt
      minute_lt := by decide, second_le := by decide }
  timestamp := "2024-01-01"
  reading := { capacityPercent := 1 }

/-- Two samples for each file and room for one file: the first file has made room for the second. -/
theorem keeps_newest_files_of_three :
    let samples := [hourly 8, hourly 8, hourly 9]
    ∃ log directory, start 2 1 .missing = .ok (log, directory) ∧
      let course := Course.run { log, directory } (samples.map Dated.sample)
      course.RolledOver 2 1 (samples.map fun dated => dated.sample.line) ∧
        course.directory =
          .present [("battery_20240101_090000_0001.jsonl", .file [(hourly 9).sample.line])] ∧
        Tells (hourly 9).sample.line "2024-01-01" { capacityPercent := 1 } := by
  intro samples
  obtain ⟨log, directory, hstart, hrolled, htells⟩ :=
    keeps_newest_files 2 1 (Or.inl rfl) samples (by decide) (by decide)
  have hlast : Tells (hourly 9).sample.line "2024-01-01" { capacityPercent := 1 } :=
    htells (hourly 9) (by simp [samples])
  refine ⟨log, directory, hstart, hrolled, ?_, hlast⟩
  cases hstart
  decide +kernel

end SampleLog
end CameraPower
