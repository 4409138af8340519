import StructLang.Json.Basic

/-!
# JSON lexemes

The scanner turns the characters of a JSON text into lexemes.  It is a finite control: `step` takes
one character, `scan` folds it over the text.  Blanks between lexemes leave no trace.

Two decisions of the value type are made here.  A number is `natural` only when it has neither sign
nor fraction nor exponent, and a text whose escapes leave a surrogate unpaired has no content.
-/

namespace StructLang.Json

/-- A lexical element of a JSON text. -/
inductive Lexeme where
  | openObject
  | closeObject
  | openArray
  | closeArray
  | colon
  | comma
  | null
  | bool (b : Bool)
  | natural (n : Nat)
  /-- A number with a sign, a fraction or an exponent. -/
  | otherNumber
  /-- A text; without content when an escape names an unpaired surrogate. -/
  | text (content : Option String)
  deriving DecidableEq

/-! ## Content of a text -/

/-- A leading surrogate of a pair. -/
def isLead (unit : Nat) : Bool := 0xd800 ≤ unit && unit ≤ 0xdbff

/-- A trailing surrogate of a pair. -/
def isTrail (unit : Nat) : Bool := 0xdc00 ≤ unit && unit ≤ 0xdfff

/-- The code point that a surrogate pair stands for. -/
def pairValue (lead trail : Nat) : Nat := 0x10000 + (lead - 0xd800) * 0x400 + (trail - 0xdc00)

/-- The characters of a text, given its code values from last to first.  A surrogate counts only
as half of a pair. -/
def joinUnits (chars : List Char) : List Nat → Option (List Char)
  | [] => some chars
  | unit :: rest =>
    if isTrail unit then
      match rest with
      | lead :: rest =>
        if isLead lead then joinUnits (Char.ofNat (pairValue lead unit) :: chars) rest else none
      | [] => none
    else if isLead unit then none
    else joinUnits (Char.ofNat unit :: chars) rest

/-- The text with the given code values, which are listed from last to first. -/
def textOfUnits (units : List Nat) : Option String :=
  (joinUnits [] units).map String.ofList

/-! ## The finite control -/

/-- How far the scanner is inside a number. -/
inductive NumberPart where
  | minus
  /-- A natural that starts with `0`, which takes no further digit. -/
  | zero
  | whole (value : Nat)
  | negativeZero
  | negativeWhole
  | point
  | fraction
  | exponent
  | exponentSign
  | exponentDigits

/-- What the scanner is inside of. -/
inductive Mode where
  | between
  /-- A text, with the code values read so far from last to first. -/
  | text (units : List Nat)
  | escape (units : List Nat)
  /-- A hexadecimal escape with `left` digits to come. -/
  | hex (units : List Nat) (left value : Nat)
  | number (part : NumberPart)
  /-- A word such as `true`, of which `left` is to come. -/
  | word (left : List Char) (lexeme : Lexeme)

/-- The scanner between two characters: its mode and the finished lexemes from last to first. -/
structure Scanner where
  mode : Mode
  done : List Lexeme

/-- A blank of JSON, which is a space, tab, line feed or carriage return. -/
def isSpace (c : Char) : Bool := c == ' ' || c == '\t' || c == '\n' || c == '\r'

/-- The value of a decimal digit. -/
def digitValue? (c : Char) : Option Nat :=
  if '0' ≤ c ∧ c ≤ '9' then some (c.toNat - 48) else none

/-- The value of a hexadecimal digit of either case. -/
def hexValue? (c : Char) : Option Nat :=
  if '0' ≤ c ∧ c ≤ '9' then some (c.toNat - 48)
  else if 'a' ≤ c ∧ c ≤ 'f' then some (c.toNat - 87)
  else if 'A' ≤ c ∧ c ≤ 'F' then some (c.toNat - 55)
  else none

/-- The character that a one-letter escape stands for. -/
def escapeValue? : Char → Option Char
  | '"' => some '"'
  | '\\' => some '\\'
  | '/' => some '/'
  | 'b' => some '\x08'
  | 'f' => some '\x0c'
  | 'n' => some '\n'
  | 'r' => some '\r'
  | 't' => some '\t'
  | _ => none

/-- The start of a lexeme at a character that is outside all texts, numbers and words. -/
def enter (done : List Lexeme) (c : Char) : Option Scanner :=
  if isSpace c then some ⟨.between, done⟩
  else match c with
  | '\x7b' => some ⟨.between, .openObject :: done⟩
  | '\x7d' => some ⟨.between, .closeObject :: done⟩
  | '[' => some ⟨.between, .openArray :: done⟩
  | ']' => some ⟨.between, .closeArray :: done⟩
  | ':' => some ⟨.between, .colon :: done⟩
  | ',' => some ⟨.between, .comma :: done⟩
  | '"' => some ⟨.text [], done⟩
  | 't' => some ⟨.word ['r', 'u', 'e'] (.bool true), done⟩
  | 'f' => some ⟨.word ['a', 'l', 's', 'e'] (.bool false), done⟩
  | 'n' => some ⟨.word ['u', 'l', 'l'] .null, done⟩
  | '-' => some ⟨.number .minus, done⟩
  | c =>
    match digitValue? c with
    | some 0 => some ⟨.number .zero, done⟩
    | some d => some ⟨.number (.whole d), done⟩
    | none => none

/-- The number part after one more character, if the character belongs to the number. -/
def NumberPart.next? (part : NumberPart) (c : Char) : Option NumberPart :=
  let afterWhole : Option NumberPart :=
    if c == '.' then some .point
    else if c == 'e' || c == 'E' then some .exponent
    else none
  match part, digitValue? c with
  | .minus, some 0 => some .negativeZero
  | .minus, some _ => some .negativeWhole
  | .minus, none => none
  | .zero, _ | .negativeZero, _ => afterWhole
  | .whole n, some d => some (.whole (10 * n + d))
  | .whole _, none => afterWhole
  | .negativeWhole, some _ => some .negativeWhole
  | .negativeWhole, none => afterWhole
  | .point, some _ => some .fraction
  | .point, none => none
  | .fraction, some _ => some .fraction
  | .fraction, none => if c == 'e' || c == 'E' then some .exponent else none
  | .exponent, some _ => some .exponentDigits
  | .exponent, none => if c == '+' || c == '-' then some .exponentSign else none
  | .exponentSign, some _ => some .exponentDigits
  | .exponentSign, none => none
  | .exponentDigits, some _ => some .exponentDigits
  | .exponentDigits, none => none

/-- The lexeme of a number that ends here, if it may end here. -/
def NumberPart.lexeme? : NumberPart → Option Lexeme
  | .zero => some (.natural 0)
  | .whole n => some (.natural n)
  | .negativeZero | .negativeWhole | .fraction | .exponentDigits => some .otherNumber
  | .minus | .point | .exponent | .exponentSign => none

/-- The scanner after one more character. -/
def Scanner.step (s : Scanner) (c : Char) : Option Scanner :=
  match s.mode with
  | .between => enter s.done c
  | .text units =>
    if c == '"' then some ⟨.between, .text (textOfUnits units) :: s.done⟩
    else if c == '\\' then some ⟨.escape units, s.done⟩
    else if c < ' ' then none
    else some ⟨.text (c.toNat :: units), s.done⟩
  | .escape units =>
    if c == 'u' then some ⟨.hex units 4 0, s.done⟩
    else (escapeValue? c).map fun e => ⟨.text (e.toNat :: units), s.done⟩
  | .hex units left value =>
    (hexValue? c).map fun d =>
      let value := 16 * value + d
      if left ≤ 1 then ⟨.text (value :: units), s.done⟩ else ⟨.hex units (left - 1) value, s.done⟩
  | .number part =>
    match part.next? c with
    | some part => some ⟨.number part, s.done⟩
    | none => part.lexeme?.bind fun lexeme => enter (lexeme :: s.done) c
  | .word left lexeme =>
    match left with
    | [] => none
    | [last] => if c == last then some ⟨.between, lexeme :: s.done⟩ else none
    | next :: left => if c == next then some ⟨.word left lexeme, s.done⟩ else none

/-- The lexemes of a text that ends here, in order. -/
def Scanner.finish (s : Scanner) : Option (List Lexeme) :=
  match s.mode with
  | .between => some s.done.reverse
  | .number part => part.lexeme?.map fun lexeme => (lexeme :: s.done).reverse
  | _ => none

/-- The lexemes of a JSON text. -/
def Lexeme.scan (cs : List Char) : Option (List Lexeme) :=
  (cs.foldlM Scanner.step ⟨.between, []⟩).bind Scanner.finish

end StructLang.Json
