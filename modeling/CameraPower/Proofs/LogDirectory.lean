import CameraPower.SampleLog
import Mathlib.Data.List.Nodup
import Mathlib.Data.String.Basic

/-!
# The directory of the log files

The entries of a directory stand in the order of their names, each name once, and every operation
keeps them so.  Then an entry is found if it is there, and a removal is a filter.

* `Directory.Sorted`                     what entries are and stay;
* `Sorted.lookup_iff`, `Sorted.mem_put`  finding an entry, and entering one;
* `removeFiles_present`                  removing files, where directories stay;
* `behind`                               the listed files whose names sort behind a name.
-/

namespace CameraPower
namespace Directory

/-! ## entries by name -/

/-- sorted by name, and each name once -/
def Sorted (entries : List (String × Entry)) : Prop :=
  entries.Pairwise (·.1 < ·.1)

/-- whatever entries the directory has are sorted -/
def Ordered : Directory → Prop
  | .present entries => Sorted entries
  | _ => True

instance (directory : Directory) : Decidable directory.Ordered :=
  match directory with
  | .present entries => inferInstanceAs (Decidable (entries.Pairwise (·.1 < ·.1)))
  | .missing | .blocked => .isTrue trivial

variable {entries : List (String × Entry)} {name : String} {entry : Entry} {item : String × Entry}

theorem Sorted.keys (h : Sorted entries) : (entries.map Prod.fst).Pairwise (· < ·) :=
  List.pairwise_map.mpr h

theorem Sorted.filter (h : Sorted entries) (keeps : String × Entry → Bool) :
    Sorted (entries.filter keeps) :=
  List.Pairwise.filter keeps h

theorem Sorted.nodup (h : Sorted entries) : (entries.map Prod.fst).Nodup :=
  h.keys.imp ne_of_lt

/-- a name stands for one entry -/
theorem Sorted.unique (h : Sorted entries) {first second : Entry} (hfirst : (name, first) ∈ entries)
    (hsecond : (name, second) ∈ entries) : first = second :=
  (Prod.mk.inj (List.inj_on_of_nodup_map h.nodup hfirst hsecond rfl)).2

theorem Sorted.lookup_iff (h : Sorted entries) :
    entries.lookup name = some entry ↔ (name, entry) ∈ entries := by
  constructor
  · intro hlookup
    obtain ⟨front, back, rfl, -⟩ := List.lookup_eq_some_iff.mp hlookup
    simp
  · intro hmem
    cases hlookup : entries.lookup name with
    | none =>
      have hne := List.lookup_eq_none_iff.mp hlookup _ hmem
      simp at hne
    | some found =>
      obtain ⟨front, back, heq, -⟩ := List.lookup_eq_some_iff.mp hlookup
      have hfound : (name, found) ∈ entries := by simp [heq]
      rw [h.unique hfound hmem]

theorem Sorted.mem_put (h : Sorted entries) :
    item ∈ put name entry entries ↔ item = (name, entry) ∨ item ∈ entries ∧ item.1 ≠ name := by
  induction entries with
  | nil => simp [put]
  | cons head rest ih =>
    obtain ⟨other, old⟩ := head
    obtain ⟨hhead, hrest⟩ := List.pairwise_cons.mp h
    have hbehind : item ∈ rest → other < item.1 := hhead item
    unfold put
    split_ifs with heq hlt
    · grind
    · grind
    · rw [List.mem_cons, ih hrest]
      grind

theorem Sorted.put (h : Sorted entries) : Sorted (put name entry entries) := by
  induction entries with
  | nil => exact List.pairwise_singleton ..
  | cons head rest ih =>
    obtain ⟨other, old⟩ := head
    obtain ⟨hhead, hrest⟩ := List.pairwise_cons.mp h
    have hrest : Sorted rest := hrest
    unfold Directory.put
    split_ifs with heq hlt
    · exact List.pairwise_cons.mpr ⟨heq ▸ hhead, hrest⟩
    · refine List.pairwise_cons.mpr ⟨fun item hitem => ?_, h⟩
      rcases List.mem_cons.mp hitem with rfl | hitem
      · exact hlt
      · exact hlt.trans (hhead item hitem)
    · have hgt : other < name := lt_of_le_of_ne (not_lt.mp hlt) (Ne.symm heq)
      refine List.pairwise_cons.mpr ⟨fun item hitem => ?_, ih hrest⟩
      rcases hrest.mem_put.mp hitem with rfl | ⟨hitem, -⟩
      · exact hgt
      · exact hhead item hitem

/-- an entry that replaces one leaves the names as they are -/
theorem Sorted.keys_put (h : Sorted entries) {old : Entry} (hmem : (name, old) ∈ entries) :
    (Directory.put name entry entries).map Prod.fst = entries.map Prod.fst := by
  induction entries with
  | nil => cases hmem
  | cons head rest ih =>
    obtain ⟨other, kept⟩ := head
    obtain ⟨hhead, hrest⟩ := List.pairwise_cons.mp h
    unfold Directory.put
    rcases List.mem_cons.mp hmem with heq | hmem
    · rw [if_pos (Prod.mk.inj heq).1, (Prod.mk.inj heq).1]
      rfl
    · have hlt : other < name := hhead _ hmem
      rw [if_neg hlt.ne', if_neg (lt_asymm hlt), List.map_cons, ih hrest hmem, List.map_cons]

/-! ## removing files -/

/-- where a name is not a file there is nothing to remove -/
theorem filter_of_not_file (h : ∀ lines, (name, Entry.file lines) ∉ entries) :
    entries.filter (fun item => item.2 = .directory ∨ item.1 ≠ name) = entries := by
  refine List.filter_eq_self.mpr fun item hitem => ?_
  obtain ⟨other, entry⟩ := item
  cases entry with
  | directory => simp
  | file lines =>
    have hother : other ≠ name := fun heq => h lines (heq ▸ hitem)
    simpa using hother

theorem removeFile_present (h : Sorted entries) (name : String) :
    (present entries).removeFile name =
      present (entries.filter fun item => item.2 = .directory ∨ item.1 ≠ name) := by
  cases hlookup : entries.lookup name with
  | none =>
    rw [filter_of_not_file fun lines hmem => ?_]
    · simp only [removeFile, hlookup]
    · rw [h.lookup_iff.mpr hmem] at hlookup
      cases hlookup
  | some found =>
    have hfound := h.lookup_iff.mp hlookup
    cases found with
    | directory =>
      rw [filter_of_not_file fun lines hmem => ?_]
      · simp only [removeFile, hlookup]
      · cases h.unique hfound hmem
    | file lines =>
      simp only [removeFile, hlookup]
      refine congrArg present (List.filter_congr fun item hitem => ?_)
      obtain ⟨other, entry⟩ := item
      have hfile : other = name → entry ≠ .directory := by
        rintro rfl rfl
        cases h.unique hfound hitem
      grind

theorem removeFiles_present (h : Sorted entries) (names : List String) :
    names.foldl removeFile (present entries) =
      present (entries.filter fun item => item.2 = .directory ∨ item.1 ∉ names) := by
  induction names generalizing entries with
  | nil => simp
  | cons name rest ih =>
    rw [List.foldl_cons, removeFile_present h, ih (h.filter _), List.filter_filter]
    refine congrArg present (List.filter_congr fun item _ => ?_)
    grind

/-! ## the files that are listed -/

/-- the names of log files, oldest first -/
def listed (entries : List (String × Entry)) : List String :=
  (entries.map Prod.fst).filter isLogName

theorem logFiles_present (entries : List (String × Entry)) :
    (present entries).logFiles = .ok (listed entries) := rfl

theorem mem_listed :
    name ∈ listed entries ↔ isLogName name = true ∧ ∃ entry, (name, entry) ∈ entries := by
  simp [listed, and_comm]

theorem Sorted.listed (h : Sorted entries) : (listed entries).Pairwise (· < ·) :=
  List.Pairwise.filter _ h.keys

/-- the listed files whose names sort behind a name -/
def behind (directory : Directory) (name : String) : List String :=
  match directory.logFiles with
  | .error _ => []
  | .ok files => files.filter (name < ·)

/-- the names alone say what is behind a name -/
theorem behind_congr {more : List (String × Entry)}
    (h : more.map Prod.fst = entries.map Prod.fst) (name : String) :
    (present more).behind name = (present entries).behind name := by
  simp only [behind, logFiles_present, listed, h]

theorem mem_behind {other : String} :
    other ∈ (present entries).behind name ↔ other ∈ listed entries ∧ name < other := by
  simp only [behind, logFiles_present, List.mem_filter, decide_eq_true_eq]

def find? (directory : Directory) (name : String) : Option Entry :=
  match directory with
  | .present entries => entries.lookup name
  | _ => none

/-- a file is listed and ends in a line -/
def Ends (directory : Directory) (name text : String) : Prop :=
  ∃ files earlier, directory.logFiles = .ok files ∧ name ∈ files ∧
    directory.find? name = some (.file (earlier ++ [text]))

/-! ## the file that sorts behind all entries -/

section
variable {front : List (String × Entry)} {lines : List String}

/-- an entry goes behind the names that are smaller -/
theorem put_append (h : ∀ item ∈ front, item.1 < name) (back : List (String × Entry)) :
    put name entry (front ++ back) = front ++ put name entry back := by
  induction front with
  | nil => rfl
  | cons head rest ih =>
    obtain ⟨hhead, hrest⟩ := List.forall_mem_cons.mp h
    rw [List.cons_append, put, if_neg hhead.ne', if_neg (lt_asymm hhead), ih hrest,
      List.cons_append]

theorem createFile_last (h : ∀ item ∈ front, item.1 < name) :
    (present front).createFile name = .ok (present (front ++ [(name, .file [])])) := by
  have hnone : front.lookup name = none :=
    List.lookup_eq_none_iff.mpr fun item hitem => bne_iff_ne.mpr (h item hitem).ne'
  have hput : put name (.file []) (front ++ []) = front ++ [(name, .file [])] := put_append h []
  rw [List.append_nil] at hput
  simp only [createFile, hnone, hput]

theorem find_last (h : Sorted (front ++ [(name, .file lines)])) :
    (present (front ++ [(name, .file lines)])).find? name = some (.file lines) :=
  h.lookup_iff.mpr (List.mem_append_right _ List.mem_cons_self)

theorem append_last (h : Sorted (front ++ [(name, .file lines)])) (text : String) :
    (present (front ++ [(name, .file lines)])).append name text =
      present (front ++ [(name, .file (lines ++ [text]))]) := by
  have hlookup : (front ++ [(name, Entry.file lines)]).lookup name = some (.file lines) :=
    find_last h
  have hfront : ∀ item ∈ front, item.1 < name := fun item hitem =>
    (List.pairwise_append.mp h).2.2 item hitem _ List.mem_cons_self
  simp only [append, hlookup, put_append hfront, put, if_true]

end

/-- the lines of a file, none where there is no file -/
def lines (directory : Directory) (name : String) : List String :=
  match directory.find? name with
  | some (.file lines) => lines
  | _ => []

/-- what is read from the listed files, oldest first -/
def contents (directory : Directory) : List String :=
  match directory.logFiles with
  | .error _ => []
  | .ok files => files.flatMap directory.lines

end Directory
end CameraPower
