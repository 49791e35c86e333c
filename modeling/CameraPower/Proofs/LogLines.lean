import CameraPower.Proofs.BatteryReading
import CameraPower.SampleLog

/-!
# What a line of the log says

The log is read line by line, each line as an object in JSON.  Here is a reader for as much of JSON as
the log needs, and what it makes of a line: nothing of a sample is lost, and no two samples share a
line.

* `text?`, `number?`, `value?`  what stands between quotes, whole numbers, values;
* `object?`                     an object of some members, and nothing behind it;
* `object?_spelled`             members that are spelled out are read back;
* `Tells`                       what a line says of a sample;
* `tells_line`                  the line of a sample tells that sample and no other.
-/

namespace CameraPower

namespace Json

/-! ## reading -/

/-- the values that a log holds -/
inductive Value where
  | text (content : String)
  | number (value : Int)
  | bool (value : Bool)
  deriving DecidableEq, Repr

abbrev Member := String × Value

/-- the character of a letter behind a backslash -/
def unescape? : Char → Option Char
  | '"' => some '"'
  | '\\' => some '\\'
  | '/' => some '/'
  | 'b' => some '\x08'
  | 'f' => some '\x0c'
  | 'n' => some '\n'
  | 'r' => some '\r'
  | 't' => some '\t'
  | _ => none

/-- the character of a number in hexadecimal digits; half of a surrogate pair is none -/
def codePoint? (digits : List Char) : Option Char :=
  ((Numeral.value? 16 digits).filter Nat.isValidChar).map Char.ofNat

/-- what stands in front of the closing quote, and what follows that -/
def text? : List Char → Option (List Char × List Char)
  | [] => none
  | '"' :: rest => some ([], rest)
  | '\\' :: 'u' :: a :: b :: c :: d :: rest => do
    let first ← codePoint? [a, b, c, d]
    let (content, rest) ← text? rest
    return (first :: content, rest)
  | '\\' :: letter :: rest => do
    let first ← unescape? letter
    let (content, rest) ← text? rest
    return (first :: content, rest)
  | c :: rest => do
    guard (32 ≤ c.toNat ∧ c ≠ '\\')
    let (content, rest) ← text? rest
    return (c :: content, rest)

/-- digits without a zero too many in front, and what follows them -/
def natural? (text : List Char) : Option (Nat × List Char) := do
  let digits := text.takeWhile Char.isDigit
  guard (digits.head? ≠ some '0' ∨ digits = ['0'])
  let n ← Numeral.value? 10 digits
  return (n, text.dropWhile Char.isDigit)

def number? : List Char → Option (Int × List Char)
  | '-' :: rest => (natural? rest).map fun (n, rest) => (-n, rest)
  | text => (natural? text).map fun (n, rest) => (n, rest)

def value? : List Char → Option (Value × List Char)
  | '"' :: rest => (text? rest).map fun (content, rest) => (.text (String.ofList content), rest)
  | 't' :: 'r' :: 'u' :: 'e' :: rest => some (.bool true, rest)
  | 'f' :: 'a' :: 'l' :: 's' :: 'e' :: rest => some (.bool false, rest)
  | text => (number? text).map fun (n, rest) => (.number n, rest)

def member? : List Char → Option (Member × List Char)
  | '"' :: rest => do
    match ← text? rest with
    | (key, ':' :: rest) =>
      let (value, rest) ← value? rest
      return ((String.ofList key, value), rest)
    | _ => none
  | _ => none

/-- `count` members up to the closing brace, the first behind `mark`, each other behind a comma -/
def members? : Nat → Char → List Char → Option (List Member)
  | 0, _, text => if text = ['\x7d'] then some [] else none
  | _ + 1, _, [] => none
  | count + 1, mark, c :: text => do
    guard (c = mark)
    let (member, rest) ← member? text
    let members ← members? count ',' rest
    return member :: members

/-- an object of `count` members, without blanks -/
def object? (count : Nat) (text : List Char) : Option (List Member) :=
  members? count '\x7b' text

/-! ## writing -/

def spelledText (content : String) : List Char :=
  content.toList.flatMap escaped ++ ['"']

def Value.spelled : Value → List Char
  | .text content => '"' :: spelledText content
  | .number n => Numeral.signed n
  | .bool true => ['t', 'r', 'u', 'e']
  | .bool false => ['f', 'a', 'l', 's', 'e']

def spelledMember (member : Member) : List Char :=
  '"' :: (spelledText member.1 ++ ':' :: member.2.spelled)

/-! ## what is written is read back -/

/-- a character stands for itself, behind a backslash as a letter, or as its number -/
theorem escaped_cases (c : Char) :
    (∃ letter, escaped c = ['\\', letter] ∧ unescape? letter = some c ∧ letter ≠ 'u') ∨
      (escaped c = ['\\', 'u', '0', '0', (c.toNat / 16).digitChar, (c.toNat % 16).digitChar] ∧
        c.toNat < 32) ∨
      (escaped c = [c] ∧ c ≠ '"' ∧ c ≠ '\\' ∧ 32 ≤ c.toNat) := by
  unfold escaped
  cases hletter : letters.lookup c with
  | some letter =>
    obtain ⟨front, back, hletters, -⟩ := List.lookup_eq_some_iff.mp hletter
    have htable : ∀ pair ∈ letters, unescape? pair.2 = some pair.1 ∧ pair.2 ≠ 'u' := by decide
    have hmem : (c, letter) ∈ letters := hletters ▸ List.mem_append_right _ List.mem_cons_self
    exact Or.inl ⟨letter, rfl, htable (c, letter) hmem⟩
  | none =>
    have hother : ∀ pair ∈ letters, (c != pair.1) = true := List.lookup_eq_none_iff.mp hletter
    have hquote : c ≠ '"' := by simpa using hother ('"', '"') (by decide)
    have hslash : c ≠ '\\' := by simpa using hother ('\\', '\\') (by decide)
    by_cases hcontrol : c.toNat < 32
    · exact Or.inr (Or.inl ⟨if_pos hcontrol, hcontrol⟩)
    · exact Or.inr (Or.inr ⟨if_neg hcontrol, hquote, hslash, Nat.le_of_not_lt hcontrol⟩)

theorem codePoint?_control {c : Char} (h : c.toNat < 32) :
    codePoint? ['0', '0', (c.toNat / 16).digitChar, (c.toNat % 16).digitChar] = some c := by
  have htable : ∀ n < 32, codePoint? ['0', '0', (n / 16).digitChar, (n % 16).digitChar] =
      some (Char.ofNat n) := by decide
  rw [htable c.toNat h, Char.ofNat_toNat]

theorem text?_escaped (c : Char) {rest content back : List Char}
    (h : text? rest = some (content, back)) :
    text? (escaped c ++ rest) = some (c :: content, back) := by
  rcases escaped_cases c with ⟨letter, hescaped, hletter, hnumber⟩ | ⟨hescaped, hcontrol⟩ |
    ⟨hescaped, hquote, hslash, hplain⟩
  · rw [hescaped]
    simp [text?, hletter, hnumber, h]
  · rw [hescaped]
    simp [text?, codePoint?_control hcontrol, h]
  · rw [hescaped]
    simp [text?, hslash, hplain, h]

theorem text?_spelled (content : String) (rest : List Char) :
    text? (spelledText content ++ rest) = some (content.toList, rest) := by
  unfold spelledText
  induction content.toList with
  | nil => rfl
  | cons c content ih =>
    rw [List.flatMap_cons, List.append_assoc, List.append_assoc]
    rw [List.append_assoc] at ih
    exact text?_escaped c ih

/-- a number ends where no digit follows -/
def Ends (rest : List Char) : Prop :=
  ∀ c ∈ rest.head?, c.isDigit = false

theorem head_decimal {n : Nat} (h : 0 < n) : (Numeral.decimal n).head? ≠ some '0' := by
  induction n using Nat.strong_induction_on with
  | h n ih =>
    rw [Numeral.decimal]
    split
    · rename_i hsmall
      have htable : ∀ n < 10, 0 < n → Numeral.digit n ≠ '0' := by decide
      simpa using htable n hsmall h
    · rename_i hlarge
      have hless := ih (n / 10) (by omega) (by omega)
      rw [List.head?_append_of_ne_nil _ (Numeral.isDecimal_decimal _).nonempty]
      exact hless

theorem natural?_decimal (n : Nat) {rest : List Char} (h : Ends rest) :
    natural? (Numeral.decimal n ++ rest) = some (n, rest) := by
  have hdecimal := Numeral.isDecimal_decimal n
  have hends : rest.takeWhile Char.isDigit = [] ∧ rest.dropWhile Char.isDigit = rest := by
    cases rest with
    | nil => exact ⟨rfl, rfl⟩
    | cons c rest => simp [h c rfl]
  have hzero : (Numeral.decimal n).head? ≠ some '0' ∨ Numeral.decimal n = ['0'] := by
    rcases Nat.eq_zero_or_pos n with rfl | hpos
    · exact Or.inr (by rw [Numeral.decimal]; rfl)
    · exact Or.inl (head_decimal hpos)
  have hvalue : Numeral.value? 10 (Numeral.decimal n) = some n :=
    (Numeral.value?_eq_some_iff _ _).mpr hdecimal
  unfold natural?
  rw [List.takeWhile_append_of_pos hdecimal.isDigit, List.dropWhile_append_of_pos hdecimal.isDigit,
    hends.1, hends.2, List.append_nil]
  simp [hzero, hvalue]

theorem number?_of_digit {c : Char} (h : c.isDigit = true) (rest : List Char) :
    number? (c :: rest) = (natural? (c :: rest)).map fun (n, rest) => (n, rest) := by
  unfold number?
  split
  · rename_i hsign
    obtain rfl := (List.cons.inj hsign).1
    exact absurd h (by decide)
  · rfl

theorem exists_cons_decimal (n : Nat) :
    ∃ c digits, Numeral.decimal n = c :: digits ∧ c.isDigit = true := by
  have hdecimal := Numeral.isDecimal_decimal n
  obtain ⟨c, digits, hdigits⟩ := List.exists_cons_of_ne_nil hdecimal.nonempty
  exact ⟨c, digits, hdigits, hdecimal.isDigit c (hdigits ▸ List.mem_cons_self)⟩

theorem exists_cons_signed (n : Int) :
    ∃ c numeral, Numeral.signed n = c :: numeral ∧ (c = '-' ∨ c.isDigit = true) := by
  unfold Numeral.signed
  split
  · exact ⟨'-', _, rfl, Or.inl rfl⟩
  · obtain ⟨c, digits, hdecimal, hdigit⟩ := exists_cons_decimal n.natAbs
    exact ⟨c, digits, hdecimal, Or.inr hdigit⟩

theorem number?_signed (n : Int) {rest : List Char} (h : Ends rest) :
    number? (Numeral.signed n ++ rest) = some (n, rest) := by
  have hnatural := natural?_decimal n.natAbs h
  unfold Numeral.signed
  split
  · rename_i hminus
    have hsize : -(n.natAbs : Int) = n := by omega
    simp only [List.cons_append, number?, hnatural, Option.map_some, hsize]
  · rename_i hplain
    have hsize : (n.natAbs : Int) = n := by omega
    obtain ⟨c, digits, hdecimal, hdigit⟩ := exists_cons_decimal n.natAbs
    rw [hdecimal, List.cons_append] at hnatural ⊢
    simp only [number?_of_digit hdigit, hnatural, Option.map_some, hsize]

/-- neither a quote nor a letter comes first in a numeral -/
theorem value?_of_numeral {c : Char} (h : c = '-' ∨ c.isDigit = true) (rest : List Char) :
    value? (c :: rest) = (number? (c :: rest)).map fun (n, rest) => (.number n, rest) := by
  unfold value?
  split <;> rename_i hfirst
  case h_4 => rfl
  all_goals
    obtain rfl := (List.cons.inj hfirst).1
    exact absurd h (by decide)

theorem value?_spelled (value : Value) {rest : List Char} (h : Ends rest) :
    value? (value.spelled ++ rest) = some (value, rest) := by
  cases value with
  | text content => simp [Value.spelled, value?, text?_spelled]
  | bool value => cases value <;> rfl
  | number n =>
    obtain ⟨c, numeral, hnumeral, hfirst⟩ := exists_cons_signed n
    have hnumber := number?_signed n h
    rw [Value.spelled]
    rw [hnumeral, List.cons_append] at hnumber ⊢
    rw [value?_of_numeral hfirst, hnumber, Option.map_some]

theorem member?_spelled (member : Member) {rest : List Char} (h : Ends rest) :
    member? (spelledMember member ++ rest) = some (member, rest) := by
  obtain ⟨key, value⟩ := member
  simp only [spelledMember, List.cons_append, List.append_assoc, member?, text?_spelled]
  simp [value?_spelled value h]

/-- members as they stand in an object, each behind its mark -/
def spelledMembers (mark : Char) : List Member → List Char
  | [] => ['\x7d']
  | member :: rest => mark :: (spelledMember member ++ spelledMembers ',' rest)

theorem ends_spelledMembers (members : List Member) : Ends (spelledMembers ',' members) := by
  cases members <;> simp [Ends, spelledMembers]

theorem members?_spelled (mark : Char) (members : List Member) :
    members? members.length mark (spelledMembers mark members) = some members := by
  induction members generalizing mark with
  | nil => rfl
  | cons member rest ih =>
    simp [spelledMembers, members?, member?_spelled member (ends_spelledMembers rest), ih]

/-- **An object that is spelled out is read back**, whatever the texts in it hold. -/
theorem object?_spelled (members : List Member) :
    object? members.length (spelledMembers '\x7b' members) = some members :=
  members?_spelled '\x7b' members

/-! ## one line -/

def Printable (text : List Char) : Prop :=
  ∀ c ∈ text, 32 ≤ c.toNat

theorem printable_escaped (c : Char) : Printable (escaped c) := by
  rcases escaped_cases c with ⟨letter, hescaped, hletter, -⟩ | ⟨hescaped, hcontrol⟩ |
    ⟨hescaped, -, -, hplain⟩ <;> rw [hescaped]
  · have hplain : 32 ≤ letter.toNat := by
      unfold unescape? at hletter
      split at hletter <;> first | decide | cases hletter
    simp [Printable, hplain]
  · have htable : ∀ n < 32, 32 ≤ (n / 16).digitChar.toNat ∧ 32 ≤ (n % 16).digitChar.toNat := by
      decide
    simp [Printable, htable c.toNat hcontrol]
  · simpa [Printable] using hplain

theorem printable_spelledText (content : String) : Printable (spelledText content) := by
  intro c hc
  rcases List.mem_append.mp hc with hcontent | hquote
  · obtain ⟨x, -, hx⟩ := List.mem_flatMap.mp hcontent
    exact printable_escaped x c hx
  · rw [List.mem_singleton.mp hquote]
    decide

theorem printable_value (value : Value) : Printable value.spelled := by
  cases value with
  | text content => exact List.forall_mem_cons.mpr ⟨by decide, printable_spelledText content⟩
  | bool value => cases value <;> simp [Printable, Value.spelled]
  | number n =>
    intro c hc
    rcases Numeral.mem_signed hc with rfl | hdigit
    · decide
    · have hzero : '0'.toNat = 48 := rfl
      rw [Char.isDigit_iff_toNat, hzero] at hdigit
      omega

theorem printable_members (mark : Char) (h : 32 ≤ mark.toNat) (members : List Member) :
    Printable (spelledMembers mark members) := by
  induction members generalizing mark with
  | nil => simp [Printable, spelledMembers]
  | cons member rest ih =>
    refine List.forall_mem_cons.mpr ⟨h, List.forall_mem_append.mpr ⟨?_, ih ',' (by decide)⟩⟩
    refine List.forall_mem_cons.mpr ⟨by decide, List.forall_mem_append.mpr ⟨?_, ?_⟩⟩
    · exact printable_spelledText member.1
    · exact List.forall_mem_cons.mpr ⟨by decide, printable_value member.2⟩

end Json

namespace SampleLog

open Json

/-! ## the line of a sample -/

/-- the members of the object in a line -/
def members (timestamp : String) (t : Telemetry) : List Member :=
  ("timestamp", .text timestamp) ::
    (List.zipWith (fun key value => (key, .number value)) Telemetry.jsonKeys t.values ++
      [("shutdown_requested", .bool t.shutdownRequested)])

theorem members_injective {timestamp timestamp' : String} {t t' : Telemetry}
    (h : members timestamp t = members timestamp' t') : timestamp = timestamp' ∧ t = t' := by
  obtain ⟨hfirst, hrest⟩ := List.cons.inj h
  have htimestamp : timestamp = timestamp' := by simpa using hfirst
  have hnumbers := List.append_inj_left' hrest rfl
  have hvalues : t.values = t'.values := by
    simpa [Telemetry.jsonKeys, Telemetry.values] using hnumbers
  exact ⟨htimestamp, Telemetry.values_injective hvalues⟩

theorem cons_intercalate {texts : List (List Char)} (h : texts ≠ []) :
    ',' :: [','].intercalate texts = texts.flatMap (',' :: ·) := by
  induction texts with
  | nil => exact absurd rfl h
  | cons text rest ih =>
    cases rest with
    | nil => simp [List.intercalate]
    | cons next rest =>
      rw [List.intercalate_cons_cons, List.flatMap_cons, ← ih (List.cons_ne_nil next rest)]
      simp

theorem spelledMembers_cons (mark : Char) (member : Member) (rest : List Member) :
    spelledMembers mark (member :: rest) =
      mark :: (spelledMember member ++ rest.flatMap (',' :: spelledMember ·) ++ ['\x7d']) := by
  induction rest generalizing mark member with
  | nil => simp [spelledMembers]
  | cons next rest ih =>
    rw [spelledMembers, ih]
    simp

theorem toList_quoted (text : String) : (quoted text).toList = '"' :: spelledText text := by
  simp [quoted, spelledText]

/-- keys without anything to escape -/
theorem toList_numbers {keys : List String} (values : List Int)
    (hplain : ∀ key ∈ keys, spelledText key = key.toList ++ ['"']) :
    (List.zipWith (fun key value => "\"" ++ key ++ "\":" ++ Numeral.ofInt value) keys values).map
        String.toList =
      (List.zipWith (fun key value => (key, Value.number value)) keys values).map spelledMember := by
  induction keys generalizing values with
  | nil => rfl
  | cons key keys ih =>
    obtain ⟨hkey, hkeys⟩ := List.forall_mem_cons.mp hplain
    cases values with
    | nil => rfl
    | cons value values =>
      rw [List.zipWith_cons_cons, List.zipWith_cons_cons, List.map_cons, List.map_cons,
        ih values hkeys]
      simp [spelledMember, hkey, Value.spelled, Numeral.ofInt]

theorem toList_jsonMembers (t : Telemetry) :
    ',' :: t.jsonMembers.toList =
      (List.zipWith (fun key value => (key, Value.number value)) Telemetry.jsonKeys t.values).flatMap
        (',' :: spelledMember ·) := by
  have hplain : ∀ key ∈ Telemetry.jsonKeys, spelledText key = key.toList ++ ['"'] := by decide
  have hcomma : ",".toList = [','] := rfl
  have hsome : (List.zipWith (fun key value => (key, Value.number value)) Telemetry.jsonKeys
      t.values).map spelledMember ≠ [] := by
    simp [Telemetry.jsonKeys, Telemetry.values]
  rw [Telemetry.jsonMembers, String.toList_intercalate, hcomma, toList_numbers t.values hplain,
    cons_intercalate hsome, List.flatMap_map]

/-- the line of a sample, spelled out -/
theorem toList_line (timestamp : String) (t : Telemetry) :
    (line timestamp t).toList = spelledMembers '\x7b' (members timestamp t) := by
  have hfirst : '\x7b' :: spelledMember ("timestamp", .text timestamp) =
      "\x7b\"timestamp\":".toList ++ (quoted timestamp).toList := by
    have hkey : spelledText "timestamp" = "timestamp\"".toList := by decide
    rw [spelledMember, hkey, toList_quoted]
    simp [Value.spelled]
  have hlast : ',' :: spelledMember ("shutdown_requested", .bool t.shutdownRequested) =
      ",\"shutdown_requested\":".toList ++
        (if t.shutdownRequested then "true" else "false").toList := by
    cases t.shutdownRequested <;> decide
  have hcomma : ",".toList = [','] := rfl
  have hclose : "\x7d".toList = ['\x7d'] := rfl
  rw [members, spelledMembers_cons, List.flatMap_append, List.flatMap_singleton,
    ← toList_jsonMembers, hlast, List.append_assoc, ← List.cons_append, hfirst]
  unfold line
  simp only [String.toList_append, hcomma, hclose, List.append_assoc, List.singleton_append]

/-! ## what a line says -/

/-- Of a sample a line says all: it is one line, it is an object with the fields of the sample in
their order, and no other sample has that line. -/
structure Tells (text timestamp : String) (t : Telemetry) : Prop where
  oneLine : '\n' ∉ text.toList
  object : object? 13 text.toList = some (members timestamp t)
  alone : ∀ timestamp' t', line timestamp' t' = text → timestamp' = timestamp ∧ t' = t

/-- **A sample's line tells it**, whatever the timestamp. -/
theorem tells_line (timestamp : String) (t : Telemetry) : Tells (line timestamp t) timestamp t where
  oneLine := by
    rw [toList_line]
    intro hmem
    exact absurd (printable_members '\x7b' (by decide) _ '\n' hmem) (by decide)
  object := by
    rw [toList_line]
    exact object?_spelled (members timestamp t)
  alone := by
    intro timestamp' t' hline
    apply members_injective
    have hlength : ∀ timestamp t, (members timestamp t).length = 13 := fun _ _ => rfl
    have hread := object?_spelled (members timestamp' t')
    rw [← toList_line, hline, toList_line, hlength, ← hlength timestamp t,
      object?_spelled (members timestamp t)] at hread
    exact (Option.some.inj hread).symm

end SampleLog
end CameraPower
