/-!
# TOML values

* `Value`             the values of a document;
* `Origin`            who made a table, which decides who may still add to it;
* `Entries.assign?`   a key with dots is given a value;
* `Entries.open?`     a table gets its own header;
* `Entries.append?`   an array of tables gets one more table.

No name is defined twice: a table in braces is closed, a table has at most one header, and keys with
dots go only into tables that such keys made.
-/

namespace CameraPower.Toml

/-! ## values -/

/-- who made a table -/
inductive Origin where
  /-- a header of its own, or the beginning of the document -/
  | header
  /-- the header of a table inside it -/
  | implied
  /-- a key with dots -/
  | dotted
  /-- braces around its entries -/
  | braces
  deriving DecidableEq, Repr

/-- A value.  What no reader of a document looks at is not kept: the value of a number with a
fraction or an exponent, and of a date or a time. -/
inductive Value where
  | text (value : String)
  | integer (value : Int)
  | float
  | boolean (value : Bool)
  | datetime
  | array (elements : List Value)
  | tables (elements : List (List (String × Value)))
  | table (origin : Origin) (entries : List (String × Value))

/-- the entries of a table, in the order of their first mention -/
abbrev Entries := List (String × Value)

/-- a key with dots: the tables it goes through, and the name at its end -/
structure Key where
  path : List String
  name : String
  deriving DecidableEq, Repr

def Key.names (key : Key) : List String :=
  key.path ++ [key.name]

/-! ## definitions -/

namespace Entries

/-- the entries after the value of a name, if it has one, is replaced -/
def alter? (name : String) (f : Option Value → Option Value) : Entries → Option Entries
  | [] => (f none).map fun v => [(name, v)]
  | (other, value) :: rest =>
    if other = name then (f (some value)).map fun v => (name, v) :: rest
    else (alter? name f rest).map fun rest => (other, value) :: rest

/-- Does `act` in the table that names lead to from a table of an origin.  Missing tables on the way
are made, as keys with dots or as headers do; an array of tables stands for its last table.  A key
with dots does not lead into a table that has a header, and nothing leads into braces. -/
def within? (dotted : Bool) (act : Origin → Entries → Option Entries) :
    List String → Origin → Entries → Option Entries
  | [], origin, entries => act origin entries
  | name :: names, _, entries =>
    alter? name (fun value =>
      match value with
      | none =>
        let origin := if dotted then Origin.dotted else Origin.implied
        (within? dotted act names origin []).map (.table origin)
      | some (.table origin entries) =>
        if origin = .braces ∨ (dotted ∧ origin = .header) then none
        else (within? dotted act names origin entries).map (.table origin)
      | some (.tables elements) =>
        match elements.getLast? with
        | none => none
        | some last =>
          (within? dotted act names .header last).map fun last =>
            .tables (elements.dropLast ++ [last])
      | some _ => none) entries

/-- A name without a value gets one; a key with dots ends in a table that such keys made. -/
def assign? (key : Key) (value : Value) (origin : Origin) (entries : Entries) : Option Entries :=
  within? true (fun origin entries =>
    if origin = .dotted ↔ key.path = [] then none
    else alter? key.name (fun old => if old.isSome then none else some value) entries)
    key.path origin entries

/-- A table gets its header: a new one, or one that only the headers of its inner tables made. -/
def open? (key : Key) (entries : Entries) : Option Entries :=
  within? false (fun _ entries =>
    alter? key.name (fun
      | none => some (.table .header [])
      | some (.table .implied entries) => some (.table .header entries)
      | some _ => none) entries)
    key.path .header entries

/-- An array of tables, which may be new, gets one more table. -/
def append? (key : Key) (entries : Entries) : Option Entries :=
  within? false (fun _ entries =>
    alter? key.name (fun
      | none => some (.tables [[]])
      | some (.tables elements) => some (.tables (elements ++ [[]]))
      | some _ => none) entries)
    key.path .header entries

end Entries

end CameraPower.Toml
