import StructLang.Member
import StructLang.NameMap

/-!
# Structs

A struct of the symbol table: where it stands in the tree, what it declares and inherits, and which
of its declaration forms have been seen.

A struct holds a member that it inherits under the member's own name, with the ancestor as its
owner.  An inherited attribute is marked besides, and it is the mark that a lookup looks at.
-/

namespace StructLang

/-- The two forms in which every struct has to be declared. -/
inductive Form where
  /-- The struct item, with the parent and the attributes. -/
  | structural
  /-- The impl block, with the constructor and the methods. -/
  | implementation
  deriving DecidableEq

/-- What is repeated when a form is declared twice. -/
def Form.repeated : Form → Repeated
  | structural => .structDeclaration
  | implementation => .implBlock

/-- A struct of the symbol table. -/
structure Struct where
  /-- The token of its first declaration. -/
  token : Token
  parent : Option String
  children : NameSet
  attributes : NameMap Attr
  methods : NameMap Method
  constructor : Option Method
  /-- Whether its struct item has been declared. -/
  structural : Bool
  /-- Whether its impl block has been declared. -/
  implemented : Bool
  /-- Whether the members of its parent have been merged into it. -/
  consolidated : Bool
  /-- Whether some accepted body creates it. -/
  instantiated : Bool
  builtin : Bool
  /-- The slot of the next method that it declares. -/
  nextMethodSlot : Nat
  /-- The slot of the next attribute that it declares. -/
  nextAttributeSlot : Nat

namespace Struct

/-- A struct under a parent, without members. -/
def declare (token : Token) (parent : Option String) : Struct where
  token := token
  parent := parent
  children := .empty
  attributes := .empty
  methods := .empty
  constructor := none
  structural := false
  implemented := false
  consolidated := false
  instantiated := false
  builtin := false
  nextMethodSlot := 0
  nextAttributeSlot := 0

/-- The name of a struct. -/
def name (s : Struct) : String := s.token.lexeme

/-- Whether a form has been declared. -/
def hasForm (s : Struct) : Form → Bool
  | .structural => s.structural
  | .implementation => s.implemented

/-- The struct with a form recorded. -/
def recordForm (s : Struct) : Form → Struct
  | .structural => { s with structural := true }
  | .implementation => { s with implemented := true }

/-- The first part that the declaration of a struct lacks. -/
def missingPart? (s : Struct) : Option MissingPart :=
  if !s.structural then some .structDeclaration
  else if !s.implemented then some .implBlock
  else if s.constructor.isNone then some .constructor
  else none

/-- The methods, inherited ones included, in slot order. -/
def methodsBySlot (s : Struct) : List Method := Method.bySlot s.methods.values

/-- The attributes, inherited ones included, in slot order. -/
def attributesBySlot (s : Struct) : List Attr := Attr.bySlot s.attributes.values

/-- The constructor for the kind `constructor`, otherwise the method with the given name. -/
def method? (s : Struct) (kind : MethodKind) (name : String) : Option Method :=
  match kind with
  | .constructor => s.constructor
  | _ => s.methods.get? name

/-! ## Visibility -/

/-- What an access to an attribute finds. -/
inductive Lookup where
  | visible (a : Attr)
  /-- The attribute exists and is private to its owner. -/
  | hidden (a : Attr)
  | missing

/-- What the struct `accessor` finds under a name.  A private attribute is visible only in the
struct that declares it, and only through a value of that very struct. -/
def lookup (s : Struct) (name : String) (accessor : Option String) : Lookup :=
  match s.attributes.get? name with
  | none => .missing
  | some a =>
    if !a.isPrivate || (!a.inherited && accessor == some s.name) then .visible a else .hidden a

/-! ## Declaring members -/

/-- The struct with one more method or with its constructor. -/
def addMethod (s : Struct) (token : Token) (kind : MethodKind) (returnType : Ty) :
    Except SemanticError Struct :=
  if kind = .constructor then
    if s.constructor.isSome then .error ⟨.repeated .constructor s.name, token.position⟩
    else .ok { s with constructor := some (.declare token (some s.name) kind .void 0) }
  else if s.methods.contains token.lexeme then
    .error ⟨.repeated .method token.lexeme, token.position⟩
  else
    let method := Method.declare token (some s.name) kind returnType s.nextMethodSlot
    .ok { s with
      methods := s.methods.insert token.lexeme method
      nextMethodSlot := s.nextMethodSlot + 1 }

/-- The struct with one more attribute. -/
def addAttribute (s : Struct) (token : Token) (ty : Ty) (isPrivate : Bool) :
    Except SemanticError Struct :=
  if s.attributes.contains token.lexeme then
    .error ⟨.repeated .ownAttribute token.lexeme, token.position⟩
  else
    .ok { s with
      attributes := s.attributes.insert token.lexeme
        (.declare token s.name ty isPrivate s.nextAttributeSlot)
      nextAttributeSlot := s.nextAttributeSlot + 1 }

end Struct

end StructLang
