import StructLang.Json.Basic

/-!
# Writing JSON values

`Json.pretty` writes a document over several lines: two blanks per level, one element per line, and
empty containers closed on the spot.  `Json.compact` writes the same value on one line.

A foreign value is written as `-1`, the shortest text that reads as one.
-/

namespace StructLang.Json

/-- The lower-case hexadecimal digit of a value below sixteen. -/
def hexDigit (n : Nat) : Char :=
  if n < 10 then Char.ofNat (48 + n) else Char.ofNat (87 + n)

/-- The spelling of a character inside a text.  Only the quote, the backslash and the characters
below the space are escaped. -/
def escape (c : Char) : String :=
  if c == '"' then "\\\""
  else if c == '\\' then "\\\\"
  else if c == '\x08' then "\\b"
  else if c == '\x0c' then "\\f"
  else if c == '\n' then "\\n"
  else if c == '\r' then "\\r"
  else if c == '\t' then "\\t"
  else if c < ' ' then
    "\\u00" ++ String.ofList [hexDigit (c.toNat / 16), hexDigit (c.toNat % 16)]
  else String.singleton c

/-- A text between quotes. -/
def quote (s : String) : String :=
  "\"" ++ String.join (s.toList.map escape) ++ "\""

/-- The line break before an element at a level of nesting. -/
def lineBreak (level : Nat) : String :=
  "\n" ++ String.ofList (List.replicate (2 * level) ' ')

mutual

/-- The value over several lines, for a place at the given level of nesting. -/
def prettyAt (level : Nat) : Json → String
  | null => "null"
  | bool true => "true"
  | bool false => "false"
  | nat n => toString n
  | str s => quote s
  | arr [] => "[]"
  | arr (v :: rest) =>
    "[" ++ lineBreak (level + 1) ++ prettyAt (level + 1) v ++ prettyItems (level + 1) rest
      ++ lineBreak level ++ "]"
  | obj [] => "\x7b\x7d"
  | obj ((k, v) :: rest) =>
    "\x7b" ++ lineBreak (level + 1) ++ quote k ++ ": " ++ prettyAt (level + 1) v
      ++ prettyMembers (level + 1) rest ++ lineBreak level ++ "\x7d"
  | foreign => "-1"

/-- The elements after the first one. -/
def prettyItems (level : Nat) : List Json → String
  | [] => ""
  | v :: rest => "," ++ lineBreak level ++ prettyAt level v ++ prettyItems level rest

/-- The members after the first one. -/
def prettyMembers (level : Nat) : List (String × Json) → String
  | [] => ""
  | (k, v) :: rest =>
    "," ++ lineBreak level ++ quote k ++ ": " ++ prettyAt level v ++ prettyMembers level rest

end

/-- The document over several lines, without a final line break. -/
def pretty (v : Json) : String := prettyAt 0 v

mutual

/-- The value on one line. -/
def compact : Json → String
  | null => "null"
  | bool true => "true"
  | bool false => "false"
  | nat n => toString n
  | str s => quote s
  | arr [] => "[]"
  | arr (v :: rest) => "[" ++ compact v ++ compactItems rest ++ "]"
  | obj [] => "\x7b\x7d"
  | obj ((k, v) :: rest) => "\x7b" ++ quote k ++ ":" ++ compact v ++ compactMembers rest ++ "\x7d"
  | foreign => "-1"

/-- The elements after the first one. -/
def compactItems : List Json → String
  | [] => ""
  | v :: rest => "," ++ compact v ++ compactItems rest

/-- The members after the first one. -/
def compactMembers : List (String × Json) → String
  | [] => ""
  | (k, v) :: rest => "," ++ quote k ++ ":" ++ compact v ++ compactMembers rest

end

end StructLang.Json
