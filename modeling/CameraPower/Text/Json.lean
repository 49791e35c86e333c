/-!
# Texts in JSON

A text between quotes.  Of its characters only those are escaped that have to be: the two marks, and
the control characters, five of which have letters of their own.
-/

namespace CameraPower.Json

/-- the characters with an escape of one letter, and the letter -/
def letters : List (Char × Char) :=
  [('"', '"'), ('\\', '\\'), ('\x08', 'b'), ('\t', 't'), ('\n', 'n'), ('\x0c', 'f'), ('\r', 'r')]

/-- a character as it stands between quotes -/
def escaped (c : Char) : List Char :=
  match letters.lookup c with
  | some letter => ['\\', letter]
  | none =>
    if c.toNat < 32 then
      ['\\', 'u', '0', '0', (c.toNat / 16).digitChar, (c.toNat % 16).digitChar]
    else [c]

def quoted (text : String) : String :=
  "\"" ++ String.ofList (text.toList.flatMap escaped) ++ "\""

end CameraPower.Json
