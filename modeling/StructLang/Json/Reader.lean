import StructLang.Json.Lexeme

/-!
# Reading JSON values

`Json.parse` reads the strict JSON grammar: one value with blanks around it.  The reader takes one
lexeme at a time and keeps the open containers on a stack, so nesting has no limit here; the limit
belongs to the decoders, which count only what they decode.
-/

namespace StructLang.Json

/-- A container whose end is still to come, with its contents from last to first. -/
inductive Frame where
  | array (items : List Json)
  /-- An object with the key of the member being read; `legible` says that every key so far has
  content. -/
  | object (members : List (String × Json)) (key : Option String) (legible : Bool)

/-- What the grammar allows next. -/
inductive Expected where
  | value
  /-- After `[`: a first element or the end. -/
  | firstItem
  /-- After an opening brace: a first key or the end. -/
  | firstKey
  /-- After a comma in an object. -/
  | key
  | colon
  /-- After a value in a container. -/
  | separator
  /-- The whole value is read. -/
  | nothing (result : Json)

/-- The reader between two lexemes. -/
structure Reader where
  stack : List Frame
  expected : Expected

/-- The reader before the first lexeme. -/
def Reader.start : Reader := ⟨[], .value⟩

/-- The reader after a complete value. -/
def Reader.deliver (stack : List Frame) (v : Json) : Reader :=
  match stack with
  | [] => ⟨[], .nothing v⟩
  | .array items :: stack => ⟨.array (v :: items) :: stack, .separator⟩
  | .object members key legible :: stack =>
    match key with
    | some k => ⟨.object ((k, v) :: members) none legible :: stack, .separator⟩
    | none => ⟨.object members none false :: stack, .separator⟩

/-- The reader after the first lexeme of a value. -/
def Reader.begin (stack : List Frame) : Lexeme → Option Reader
  | .null => some (deliver stack .null)
  | .bool b => some (deliver stack (.bool b))
  | .natural n => some (deliver stack (.nat n))
  | .otherNumber => some (deliver stack .foreign)
  | .text (some s) => some (deliver stack (.str s))
  | .text none => some (deliver stack .foreign)
  | .openArray => some ⟨.array [] :: stack, .firstItem⟩
  | .openObject => some ⟨.object [] none true :: stack, .firstKey⟩
  | .closeArray | .closeObject | .colon | .comma => none

/-- The reader after the end of the innermost container. -/
def Reader.close : List Frame → Lexeme → Option Reader
  | .array items :: stack, .closeArray => some (deliver stack (.arr items.reverse))
  | .object members _ legible :: stack, .closeObject =>
    some (deliver stack (if legible then .obj members.reverse else .foreign))
  | _, _ => none

/-- The reader after a key. -/
def Reader.takeKey : List Frame → Lexeme → Option Reader
  | .object members _ legible :: stack, .text key => some ⟨.object members key legible :: stack, .colon⟩
  | _, _ => none

/-- The reader after one more lexeme. -/
def Reader.step (r : Reader) (lexeme : Lexeme) : Option Reader :=
  match r.expected with
  | .value => begin r.stack lexeme
  | .firstItem => if lexeme = .closeArray then close r.stack lexeme else begin r.stack lexeme
  | .firstKey => if lexeme = .closeObject then close r.stack lexeme else takeKey r.stack lexeme
  | .key => takeKey r.stack lexeme
  | .colon => if lexeme = .colon then some ⟨r.stack, .value⟩ else none
  | .separator =>
    match r.stack, lexeme with
    | .array _ :: _, .comma => some ⟨r.stack, .value⟩
    | .object _ _ _ :: _, .comma => some ⟨r.stack, .key⟩
    | stack, lexeme => close stack lexeme
  | .nothing _ => none

/-- The value of a text that ends here. -/
def Reader.finish (r : Reader) : Option Json :=
  match r.expected with
  | .nothing v => some v
  | _ => none

/-- The value that a sequence of lexemes spells. -/
def ofLexemes (lexemes : List Lexeme) : Option Json :=
  (lexemes.foldlM Reader.step Reader.start).bind Reader.finish

/-- The value of a JSON text; nothing when the text is not JSON. -/
def parse (s : String) : Option Json :=
  (Lexeme.scan s.toList).bind ofLexemes

end StructLang.Json
