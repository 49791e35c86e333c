import CameraPower.Toml.Number
import CameraPower.Toml.Quoted
import CameraPower.Toml.Value

/-!
# TOML documents

A document is a list of lines: headers of tables, headers of tables in an array, and keys with their
values, which go into the table of the header before them.

* `value`      a value, with arrays and tables in it down to a depth;
* `Statement`  what a line says;
* `parse?`     the entries of a document, or nothing if it is none.
-/

namespace CameraPower.Toml

open Scan

/-- arrays, tables in braces and keys with dots are refused from this depth on -/
def depthLimit : Nat := 80

/-! ## keys -/

/-- characters of names without quotes -/
def isBare (c : Char) : Bool :=
  isDigit c || ('a' ≤ c && c ≤ 'z') || ('A' ≤ c && c ≤ 'Z') || c == '_' || c == '-'

/-- a name: letters, digits, underscores and hyphens, or anything in quotes -/
def name : Scan String :=
  basic <|> literal <|> (do
    let first ← satisfy isBare
    return String.ofList (first :: (← takeWhile isBare)))

/-- names with dots between them; blanks do not count -/
def key : Scan Key := do
  let names ← separated '.' (do
    blanks
    let n ← name
    blanks
    return n)
  match names.getLast? with
  | some last =>
    if names.length < depthLimit then return ⟨names.dropLast, last⟩ else failure
  | none => failure

/-! ## values -/

/-- a value without values in it -/
def scalar : Scan Value :=
  (do return .text (← quoted)) <|>
  (do datetime; return .datetime) <|>
  (do float; return .float) <|>
  (do special; return .float) <|>
  (do return .integer (← integer)) <|>
  (do word "true".toList; return .boolean true) <|>
  (do word "false".toList; return .boolean false)

/-- values in brackets, which may go over several lines and end in a comma -/
def array (element : Scan Value) : Scan Value := do
  char '['
  let elements ← separated ',' (do
    trivia
    let v ← element
    trivia
    return v)
  unless elements.isEmpty do
    let _ ← optional? (char ',')
  trivia
  char ']'
  return .array elements

def pair (element : Scan Value) : Scan (Key × Value) := do
  let k ← key
  char '='
  blanks
  return (k, ← element)

/-- keys and values in braces -/
def inlineTable (element : Scan Value) : Scan Value := do
  char '{'
  let pairs ← separated ',' (do
    let p ← pair element
    blanks
    return p)
  blanks
  char '}'
  match pairs.foldlM (fun entries (k, v) => Entries.assign? k v .braces entries) [] with
  | some entries => return .table .braces entries
  | none => failure

/-- a value with at most `depth` arrays and tables around each part of it -/
def value : Nat → Scan Value
  | 0 => scalar
  | depth + 1 => scalar <|> array (value depth) <|> inlineTable (value depth)

/-! ## lines -/

/-- what a line says -/
inductive Statement where
  | blank
  | table (key : Key)
  | element (key : Key)
  | assign (key : Key) (value : Value)

/-- the end of a line, or of the document -/
def lineEnd : Scan Unit :=
  newline <|> atEnd

def header (opening closing : List Char) : Scan Key := do
  word opening
  let k ← key
  word closing
  return k

/-- what stands on a line in front of blanks and a comment -/
def content : Scan Statement :=
  (do return .element (← header ['[', '['] [']', ']'])) <|>
  (do return .table (← header ['['] [']'])) <|>
  (do
    let (k, v) ← pair (value (depthLimit - 1))
    return .assign k v)

def line : Scan Statement :=
  (do
    blanks
    let s ← content
    blanks
    let _ ← optional? comment
    lineEnd
    return s) <|>
  (do
    blanks
    let _ ← optional? comment
    newline
    return .blank)

/-- all lines of a document; the last one needs no line end -/
def lines : Scan (List Statement) := do
  let _ ← optional? (char '\uFEFF')
  let statements ← many line
  blanks
  let _ ← optional? comment
  atEnd
  return statements

/-! ## documents -/

/-- the entries of a document so far, and the table that its lines go into -/
structure State where
  entries : Entries := []
  here : List String := []

/-- what a statement does -/
def State.run? (state : State) : Statement → Option State
  | .blank => some state
  | .table key => (Entries.open? key state.entries).map (⟨·, key.names⟩)
  | .element key => (Entries.append? key state.entries).map (⟨·, key.names⟩)
  | .assign key value =>
    (Entries.within? false (Entries.assign? key value) state.here .header state.entries).map
      ({ state with entries := · })

def parse? (text : String) : Option Entries := do
  let (statements, _) ← lines text.toList
  let state ← statements.foldlM State.run? {}
  return state.entries

end CameraPower.Toml
