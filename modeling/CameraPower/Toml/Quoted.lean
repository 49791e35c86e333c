import CameraPower.Numeral
import CameraPower.Toml.Scan

/-!
# Blanks, comments and quoted texts

* `blanks`, `newline`, `comment`, `trivia`  what stands between the parts of a document;
* `basic`, `literal`                        quoted texts on one line, with and without escapes;
* `quoted`                                  any quoted text, also one between three quotes.

A control character other than a tab stands nowhere in a document, line ends apart.
-/

namespace CameraPower.Toml

open Scan

/-! ## between the parts -/

/-- characters that may stand in comments and in literal texts -/
def isPlain (c : Char) : Bool :=
  c == '\t' || (0x20 ≤ c.toNat && c.toNat != 0x7F)

/-- spaces and tabs, or nothing -/
def blanks : Scan Unit := do
  let _ ← takeWhile fun c => c == ' ' || c == '\t'

/-- a line feed, which may follow a carriage return -/
def newline : Scan Unit :=
  char '\n' <|> word ['\r', '\n']

/-- a number sign and the rest of its line -/
def comment : Scan Unit := do
  char '#'
  let _ ← takeWhile isPlain

/-- blanks, line ends and comments, or nothing -/
def trivia : Scan Unit := do
  blanks
  let _ ← many (do
    let _ ← optional? comment
    newline
    blanks)

/-! ## escapes -/

/-- a character given by its number, in a fixed count of hexadecimal digits -/
def codePoint (count : Nat) : Scan Char := do
  let digits ← exactly (fun c => (Numeral.digitValue? 16 c).isSome) count
  let n := (Numeral.value? 16 digits).getD 0
  if n.isValidChar then return Char.ofNat n else failure

/-- a character written with a backslash -/
def escaped : Scan Char := do
  char '\\'
  match ← next with
  | 'b' => return '\x08'
  | 't' => return '\t'
  | 'n' => return '\n'
  | 'f' => return '\x0c'
  | 'r' => return '\r'
  | '"' => return '"'
  | '\\' => return '\\'
  | 'u' => codePoint 4
  | 'U' => codePoint 8
  | _ => failure

/-- a character of a basic text -/
def basicChar : Scan Char :=
  satisfy (fun c => isPlain c && c != '"' && c != '\\') <|> escaped

/-- a character of a literal text -/
def literalChar : Scan Char :=
  satisfy fun c => isPlain c && c != '\''

/-! ## texts on one line -/

/-- characters between two quotes -/
def enclosed (quote : Char) (p : Scan Char) : Scan String := do
  char quote
  let content ← many p
  char quote
  return String.ofList content

/-- a text on one line with escapes -/
def basic : Scan String := enclosed '"' basicChar

/-- a text on one line without escapes -/
def literal : Scan String := enclosed '\'' literalChar

/-! ## texts on several lines -/

/-- a backslash at the end of a line, which hides the blanks and line ends behind it -/
def hiddenBreak : Scan Unit := do
  char '\\'
  blanks
  newline
  blanks
  let _ ← many (do
    newline
    blanks)

/-- one or two quotes that are part of the text -/
def innerQuotes (quote : Char) : Scan (List Char) := do
  let quotes ← takeWhile (· == quote)
  if quotes.length == 1 || quotes.length == 2 then return quotes else failure

/-- three quotes, pieces of text and line ends, and three quotes again, of which up to two more in
front belong to the text; a line end right at the beginning does not -/
def multiline (quote : Char) (piece : Scan (List Char)) : Scan String := do
  word [quote, quote, quote]
  let _ ← optional? newline
  let pieces ← many (piece <|> (do newline; return ['\n']) <|> innerQuotes quote)
  let quotes ← takeWhile (· == quote)
  if 3 ≤ quotes.length && quotes.length ≤ 5 then
    return String.ofList (pieces.flatten ++ quotes.drop 3)
  else failure

/-- a quoted text of any of the four kinds -/
def quoted : Scan String :=
  multiline '"' ((do hiddenBreak; return []) <|> (do return [← basicChar])) <|>
    basic <|> multiline '\'' (do return [← literalChar]) <|> literal

end CameraPower.Toml
