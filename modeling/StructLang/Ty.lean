import StructLang.Text.Blank

/-!
# Types

Types of declarations and expressions.  A declared type is resolved from its name by `Ty.ofName`;
the checker adds the types of literals and of `nil`, which no name resolves to.
-/

namespace StructLang

/-- A primitive type. -/
inductive Primitive where
  | int
  | str
  | char
  | bool
  deriving DecidableEq

namespace Primitive

/-- Every primitive type. -/
def all : List Primitive := [int, str, char, bool]

/-- The name of a primitive type, which is also the name of its built-in struct. -/
def name : Primitive → String
  | int => "Int"
  | str => "Str"
  | char => "Char"
  | bool => "Bool"

/-- The primitive type with a given name. -/
def ofName? : String → Option Primitive
  | "Int" => some int
  | "Str" => some str
  | "Char" => some char
  | "Bool" => some bool
  | _ => none

/-- The name of the built-in struct of arrays with elements of this type. -/
def arrayName : Primitive → String
  | int => "Array Int"
  | str => "Array Str"
  | char => "Array Char"
  | bool => "Array Bool"

end Primitive

/-- The type of a declaration or of an expression. -/
inductive Ty where
  | prim (p : Primitive)
  /-- An array with primitive elements. -/
  | array (element : Primitive)
  /-- The type of a literal, which may be stored as its primitive type. -/
  | literal (p : Primitive)
  /-- A struct, built in or declared, by its name. -/
  | struct (name : String)
  | nil
  | void
  deriving DecidableEq

namespace Ty

/-- The element type that a name of the form `Array …` spells.  Blanks around the element name do
not count. -/
def arrayElement? (name : String) : Option Primitive :=
  match name.toList with
  | 'A' :: 'r' :: 'r' :: 'a' :: 'y' :: ' ' :: element =>
    Primitive.ofName? (String.ofList (Text.trim element))
  | _ => none

/-- The type that a name in a declaration stands for. -/
def ofName (name : String) : Ty :=
  if name = "void" then void
  else match Primitive.ofName? name with
  | some p => prim p
  | none =>
    match arrayElement? name with
    | some element => array element
    | none => struct name

/-- The text of a type in messages and documents. -/
def text : Ty → String
  | prim p => p.name
  | array element => element.arrayName
  | literal p => "literal " ++ p.name
  | struct name => name
  | nil => "nil"
  | void => "void"

/-- The primitive type behind a primitive or literal type. -/
def primitive? : Ty → Option Primitive
  | prim p | literal p => some p
  | _ => none

/-- Integers, as values or literals. -/
def isInt (t : Ty) : Bool := t.primitive? == some .int

/-- Truth values, as values or literals. -/
def isBool (t : Ty) : Bool := t.primitive? == some .bool

/-- The type of a literal. -/
def isLiteral : Ty → Bool
  | literal _ => true
  | _ => false

/-- The type of an array. -/
def isArray : Ty → Bool
  | array _ => true
  | _ => false

/-- The type of the value that a literal denotes; every other type is unchanged. -/
def unliteral : Ty → Ty
  | literal p => prim p
  | t => t

/-- The name of the struct that holds the members of values of this type. -/
def structName? : Ty → Option String
  | struct name => some name
  | prim p | literal p => some p.name
  | array element => some element.arrayName
  | nil | void => none

end Ty

end StructLang
