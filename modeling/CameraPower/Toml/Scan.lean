/-!
# Scanning

A scanner looks at a text from its left end: it gives what it found and the text behind that, or
nothing if the text starts with nothing of its kind.  `p <|> q` looks for `q` where there is no `p`.

* `next`, `satisfy`, `char`, `word`  single characters and fixed texts;
* `takeWhile`                        the longest run of characters of a class;
* `many`, `separated`                repetition, as often as it goes;
* `optional?`, `atEnd`               what may be missing, and the end of the text.
-/

namespace CameraPower.Toml

/-- what a text starts with, and the rest of it -/
abbrev Scan := StateT (List Char) Option

namespace Scan

/-! ## characters -/

def next : Scan Char
  | [] => none
  | c :: rest => some (c, rest)

/-- a character of a class -/
def satisfy (p : Char → Bool) : Scan Char
  | [] => none
  | c :: rest => if p c then some (c, rest) else none

def char (c : Char) : Scan Unit := do
  let _ ← satisfy (· == c)

def word : List Char → Scan Unit
  | [] => pure ()
  | c :: rest => do
    char c
    word rest

/-- the longest run of characters of a class, which may be empty -/
def takeWhile (p : Char → Bool) : Scan (List Char) := fun text =>
  some (text.takeWhile p, text.dropWhile p)

/-- a given number of characters of a class -/
def exactly (p : Char → Bool) : Nat → Scan (List Char)
  | 0 => pure []
  | n + 1 => do
    let c ← satisfy p
    return c :: (← exactly p n)

def atEnd : Scan Unit
  | [] => some ((), [])
  | _ :: _ => none

/-! ## repetition -/

/-- at most `n` finds after those in `found`, latest first -/
def collect {α : Type} (p : Scan α) : Nat → List α → List Char → List α × List Char
  | 0, found, text => (found.reverse, text)
  | n + 1, found, text =>
    match p text with
    | none => (found.reverse, text)
    | some (a, rest) => collect p n (a :: found) rest

/-- As many finds as there are; each takes up a character, so the text bounds their number. -/
def many {α : Type} (p : Scan α) : Scan (List α) := fun text =>
  some (collect p text.length [] text)

/-- what is found, if it is there -/
def optional? {α : Type} (p : Scan α) : Scan (Option α) :=
  (do return some (← p)) <|> pure none

/-- finds with a character between each two of them, which may be none at all -/
def separated {α : Type} (separator : Char) (p : Scan α) : Scan (List α) :=
  (do
    let first ← p
    let rest ← many (do
      char separator
      p)
    return first :: rest) <|> pure []

end Scan

end CameraPower.Toml
