import StructLang.SemanticError
import StructLang.SlotOrder
import StructLang.Token

/-!
# Members

What a struct is made of: attributes and methods, and the parameters and locals of a method.

Parameters and locals are plain bindings, in the order of their declaration; their positions are
their places in the list.  A method of a struct is owned by the struct that declares it, also where
a descendant inherits it, and only the start method has no owner.
-/

namespace StructLang

open Json

/-- How a method is declared. -/
inductive MethodKind where
  /-- The method where the program starts. -/
  | start
  | constructor
  | onInstance
  | static
  deriving DecidableEq, Inhabited

namespace MethodKind

/-- The name of a kind in documents. -/
def name : MethodKind → String
  | start => "start"
  | constructor => "constructor"
  | onInstance => "instance"
  | static => "static"

/-- The kind with a given name. -/
def ofName? : String → Option MethodKind
  | "start" => some start
  | "constructor" => some constructor
  | "instance" => some onInstance
  | "static" => some static
  | _ => none

/-- A method without a receiver. -/
def isStatic : MethodKind → Bool
  | static | start => true
  | constructor | onInstance => false

/-- Reads the name of a kind. -/
def decode : Decoder MethodKind := .tag ofName?

end MethodKind

/-- A parameter or a local variable. -/
structure Binding where
  token : Token
  ty : Ty
  deriving DecidableEq

/-- The name that a binding binds. -/
def Binding.name (b : Binding) : String := b.token.lexeme

/-- A slot of the instances of a struct. -/
structure Attr where
  token : Token
  /-- The struct that declares the attribute. -/
  owner : String
  ty : Ty
  isPrivate : Bool
  slot : Nat
  /-- Whether the attribute has been copied from an ancestor. -/
  inherited : Bool
  deriving DecidableEq

namespace Attr

/-- An attribute that has just been declared. -/
def declare (token : Token) (owner : String) (ty : Ty) (isPrivate : Bool) (slot : Nat) : Attr :=
  ⟨token, owner, ty, isPrivate, slot, false⟩

/-- The name of an attribute. -/
def name (a : Attr) : String := a.token.lexeme

/-- The attribute as a descendant holds it. -/
def copied (a : Attr) : Attr := { a with inherited := true }

/-- Attributes in slot order. -/
def bySlot (attrs : List Attr) : List Attr :=
  sortBySlot (fun a => (a.slot, a.name)) attrs

end Attr

/-- A method, a constructor or the start method. -/
structure Method where
  token : Token
  /-- The struct that declares the method; none for the start method. -/
  owner : Option String
  kind : MethodKind
  params : List Binding
  returnType : Ty
  slot : Nat
  locals : List Binding
  deriving DecidableEq

namespace Method

/-- A method that has just been declared. -/
def declare (token : Token) (owner : Option String) (kind : MethodKind) (returnType : Ty)
    (slot : Nat) : Method :=
  ⟨token, owner, kind, [], returnType, slot, []⟩

/-- The name of a method. -/
def name (m : Method) : String := m.token.lexeme

/-- A method without a receiver. -/
def isStatic (m : Method) : Bool := m.kind.isStatic

/-- The parameter with a given name. -/
def param? (m : Method) (name : String) : Option Binding := m.params.find? (·.name == name)

/-- The local variable with a given name. -/
def local? (m : Method) (name : String) : Option Binding := m.locals.find? (·.name == name)

/-- The types of the parameters in order. -/
def signature (m : Method) : List Ty := m.params.map (·.ty)

/-- The name of the scope that the locals belong to. -/
def scopeName (m : Method) : String :=
  match m.owner with
  | some owner => owner ++ "." ++ m.name
  | none => m.name

/-- Methods in slot order. -/
def bySlot (methods : List Method) : List Method :=
  sortBySlot (fun m => (m.slot, m.name)) methods

/-- The method with one more parameter. -/
def addParam (m : Method) (token : Token) (ty : Ty) : Except SemanticError Method :=
  if (m.param? token.lexeme).isSome then
    .error ⟨.repeated .parameter token.lexeme, token.position⟩
  else .ok { m with params := m.params ++ [⟨token, ty⟩] }

/-- The method with one more local variable, whose name is new among locals and parameters. -/
def addLocal (m : Method) (token : Token) (ty : Ty) : Except SemanticError Method :=
  if (m.local? token.lexeme).isSome || (m.param? token.lexeme).isSome then
    .error ⟨.repeated .localVariable token.lexeme, token.position⟩
  else .ok { m with locals := m.locals ++ [⟨token, ty⟩] }

end Method

end StructLang
