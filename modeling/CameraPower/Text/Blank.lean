/-!
# Blank characters

White space in the sense of Unicode, and text without it at its ends.

* `isBlank`  the characters with the property `White_Space`;
* `trim`     a text less its leading and trailing blanks.
-/

namespace CameraPower.Text

/-- the 25 characters with the Unicode property `White_Space` -/
def isBlank (c : Char) : Bool :=
  (9 ≤ c.toNat && c.toNat ≤ 13) || c.toNat == 0x20 || c.toNat == 0x85 || c.toNat == 0xA0 ||
    c.toNat == 0x1680 || (0x2000 ≤ c.toNat && c.toNat ≤ 0x200A) || c.toNat == 0x2028 ||
    c.toNat == 0x2029 || c.toNat == 0x202F || c.toNat == 0x205F || c.toNat == 0x3000

def trimStart (text : List Char) : List Char :=
  text.dropWhile isBlank

def trimEnd (text : List Char) : List Char :=
  (text.reverse.dropWhile isBlank).reverse

/-- a text less the blanks at both its ends -/
def trim (text : List Char) : List Char :=
  trimEnd (trimStart text)

theorem trim_nil : trim [] = [] := rfl

end CameraPower.Text
