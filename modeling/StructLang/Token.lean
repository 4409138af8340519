import StructLang.Position

/-!
# Tokens

Tokens anchor declarations, expressions and diagnostics in the source text.  Their kinds say how
the parser classified the lexeme.
-/

namespace StructLang

open Json

/-- How a lexeme is classified. -/
inductive TokenKind where
  -- keywords
  | structWord | implWord | fnWord | startWord | staticWord | privateWord | selfValue | newWord
  | ifWord | elseWord | whileWord | returnWord | trueLiteral | falseLiteral | nilLiteral
  -- names of types
  | intType | strType | charType | boolType | arrayType | voidType
  -- identifiers and literals
  | structId | objectId | intLiteral | strLiteral | charLiteral
  -- operators
  | plus | minus | star | slash | percent | plusPlus | minusMinus | not | andAnd | orOr
  | eqEq | ne | lt | le | gt | ge | assign
  -- delimiters
  | dot | comma | colon | semicolon | arrow | leftParen | rightParen | leftBrace | rightBrace
  | leftBracket | rightBracket
  deriving DecidableEq, Inhabited

namespace TokenKind

/-- The name of a kind in documents. -/
def name : TokenKind → String
  | structWord => "struct"
  | implWord => "impl"
  | fnWord => "fn"
  | startWord => "start"
  | staticWord => "st"
  | privateWord => "pri"
  | selfValue => "self_value"
  | newWord => "new"
  | ifWord => "if"
  | elseWord => "else"
  | whileWord => "while"
  | returnWord => "ret"
  | trueLiteral => "true"
  | falseLiteral => "false"
  | nilLiteral => "nil"
  | intType => "int_type"
  | strType => "str_type"
  | charType => "char_type"
  | boolType => "bool_type"
  | arrayType => "array_type"
  | voidType => "void_type"
  | structId => "struct_id"
  | objectId => "object_id"
  | intLiteral => "int_lit"
  | strLiteral => "str_lit"
  | charLiteral => "char_lit"
  | plus => "plus"
  | minus => "minus"
  | star => "star"
  | slash => "slash"
  | percent => "percent"
  | plusPlus => "plus_plus"
  | minusMinus => "minus_minus"
  | not => "not"
  | andAnd => "and_and"
  | orOr => "or_or"
  | eqEq => "eq_eq"
  | ne => "ne"
  | lt => "lt"
  | le => "le"
  | gt => "gt"
  | ge => "ge"
  | assign => "assign"
  | dot => "dot"
  | comma => "comma"
  | colon => "colon"
  | semicolon => "semicolon"
  | arrow => "arrow"
  | leftParen => "l_paren"
  | rightParen => "r_paren"
  | leftBrace => "l_brace"
  | rightBrace => "r_brace"
  | leftBracket => "l_bracket"
  | rightBracket => "r_bracket"

/-- Every kind, in the order of declaration. -/
def all : List TokenKind :=
  [structWord, implWord, fnWord, startWord, staticWord, privateWord, selfValue, newWord, ifWord,
   elseWord, whileWord, returnWord, trueLiteral, falseLiteral, nilLiteral, intType, strType,
   charType, boolType, arrayType, voidType, structId, objectId, intLiteral, strLiteral,
   charLiteral, plus, minus, star, slash, percent, plusPlus, minusMinus, not, andAnd, orOr, eqEq,
   ne, lt, le, gt, ge, assign, dot, comma, colon, semicolon, arrow, leftParen, rightParen,
   leftBrace, rightBrace, leftBracket, rightBracket]

/-- The kind with a given name. -/
def ofName? (s : String) : Option TokenKind := all.find? (·.name == s)

/-- The kind of a lexeme that names a built-in type. -/
def ofTypeName? : String → Option TokenKind
  | "Int" => some intType
  | "Str" => some strType
  | "Char" => some charType
  | "Bool" => some boolType
  | "Array" => some arrayType
  | _ => none

/-- Reads the name of a kind. -/
def decode : Decoder TokenKind := .tag ofName?

end TokenKind

/-- A lexeme with its kind and its place. -/
structure Token where
  kind : TokenKind
  lexeme : String
  line : UInt32
  column : UInt32
  deriving DecidableEq, Inhabited

namespace Token

/-- The place of a token. -/
def position (t : Token) : Position := ⟨t.line, t.column⟩

/-- A token of a built-in declaration, which stands at the origin. -/
def builtin (kind : TokenKind) (lexeme : String) : Token := ⟨kind, lexeme, 0, 0⟩

/-- The token as a record. -/
def toJson (t : Token) : Json :=
  .obj [("kind", .str t.kind.name), ("lexeme", .str t.lexeme), ("line", .nat t.line.toNat),
    ("column", .nat t.column.toNat)]

/-- Reads a token record. -/
def decode : Decoder Token :=
  record ["kind", "lexeme", "line", "column"] fun budget cells =>
    match cells with
    | [kind, lexeme, line, column] => do
      return ⟨← kind.required (TokenKind.decode budget), ← lexeme.required (Decoder.string budget),
        ← line.required (Decoder.word32 budget), ← column.required (Decoder.word32 budget)⟩
    | _ => none

end Token

end StructLang
