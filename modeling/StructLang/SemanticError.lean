import StructLang.Diagnostic
import StructLang.Ty

/-!
# Semantic errors

Every way in which a program can be rejected, as a cause with the facts behind it.  The wording is
in `Cause.fault`, which is the only place where a cause becomes text.

Causes that a user cannot tell apart may still be different here.  `unregisteredReceiver` and
`undefinedType` read the same, but the first one says that the type of a value names no struct,
which a consolidated table rules out; `bodyWithoutMethod` likewise reads as an undefined symbol.
-/

namespace StructLang

/-- What is declared a second time. -/
inductive Repeated where
  | builtinStruct
  | structDeclaration
  | implBlock
  | startMethod
  | constructor
  | method
  | ownAttribute
  | inheritedAttribute
  | parameter
  | localVariable
  deriving DecidableEq

/-- The words for what is declared a second time. -/
def Repeated.text : Repeated → String
  | builtinStruct => "built-in struct"
  | structDeclaration => "struct declaration"
  | implBlock => "impl block"
  | startMethod => "start method"
  | constructor => "constructor of struct"
  | method => "method"
  | ownAttribute => "attribute"
  | inheritedAttribute => "inherited attribute"
  | parameter => "parameter"
  | localVariable => "local variable"

/-- A part of a declaration that is not there. -/
inductive MissingPart where
  | structDeclaration
  | implBlock
  | constructor
  | enclosingImpl
  | enclosingMethod
  | enclosingStruct
  deriving DecidableEq

/-- The words for a missing part. -/
def MissingPart.text : MissingPart → String
  | structDeclaration => "struct declaration"
  | implBlock => "impl block"
  | constructor => "constructor"
  | enclosingImpl => "enclosing impl block"
  | enclosingMethod => "enclosing method"
  | enclosingStruct => "enclosing struct declaration"

/-- Why a method cannot override the ancestor's method of its name, which `owner` declares. -/
inductive OverrideFault where
  | staticMethod (method owner : String)
  | parameters (own ancestor : List Ty) (owner : String)
  | returnType (own ancestor : Ty) (owner : String)
  deriving DecidableEq

/-- Type names with commas between them. -/
def typeList (types : List Ty) : String := ", ".intercalate (types.map Ty.text)

/-- The wording of an override fault. -/
def OverrideFault.text : OverrideFault → String
  | staticMethod method owner => s!"'{method}' is static in '{owner}' and cannot be overridden"
  | parameters own ancestor owner =>
    let own := typeList own
    let ancestor := typeList ancestor
    s!"parameter types ({own}) do not match ({ancestor}) declared in '{owner}'"
  | returnType own ancestor owner =>
    s!"return type {own.text} does not match {ancestor.text} declared in '{owner}'"

/-- A type where another one is needed. -/
inductive Mismatch where
  | condition (found : Ty)
  | assignment (value target : Ty)
  | returnsVoid (method : String)
  | returnsNothing (method : String) (expected : Ty)
  | returned (found expected : Ty)
  | notUnary (symbol : String)
  | notBinary (symbol : String)
  | operandNotSimple (symbol : String)
  | operandArray (symbol : String)
  | operandLiteral (symbol : String)
  | operandNotInt (symbol : String) (found : Ty)
  | operandNotBool (found : Ty)
  | operands (symbol : String) (left right : Ty)
  | notArray (name : String) (found : Ty)
  | arrayIndex (found : Ty)
  | arrayElement (name : String)
  | arrayDimension (found : Ty)
  | constructorArguments (struct : String) (found : Nat)
  | argumentCount (name : String) (expected found : Nat)
  | argument (param : String) (expected found : Ty)
  deriving DecidableEq

/-- The wording of a mismatch. -/
def Mismatch.text : Mismatch → String
  | condition found => s!"condition not boolean, found {found.text}"
  | assignment value target => s!"cannot assign {value.text} to {target.text}"
  | returnsVoid method => s!"'{method}' returns void but a value is returned"
  | returnsNothing method expected => s!"'{method}' must return a value of type {expected.text}"
  | returned found expected => s!"returned {found.text} where {expected.text} is expected"
  | notUnary symbol => s!"'{symbol}' is not a unary operator"
  | notBinary symbol => s!"'{symbol}' is not a binary operator"
  | operandNotSimple symbol => s!"operand of '{symbol}' must be a simple access"
  | operandArray symbol => s!"operand of '{symbol}' cannot be an array"
  | operandLiteral symbol => s!"'{symbol}' cannot be applied to a literal"
  | operandNotInt symbol found => s!"'{symbol}' expects Int, found {found.text}"
  | operandNotBool found => s!"'!' expects Bool, found {found.text}"
  | operands symbol left right =>
    s!"'{symbol}' cannot be applied to {left.text} and {right.text}"
  | notArray name found => s!"'{name}' is {found.text}, not an array"
  | arrayIndex found => s!"array index must be Int, found {found.text}"
  | arrayElement name => s!"array elements must be primitive, found {name}"
  | arrayDimension found => s!"array dimension must be Int, found {found.text}"
  | constructorArguments struct found =>
    s!"constructor of '{struct}' takes no arguments, found {found}"
  | argumentCount name expected found =>
    s!"'{name}' expects {expected} argument(s), found {found}"
  | argument param expected found =>
    s!"argument '{param}' expects {expected.text}, found {found.text}"

/-- A use of a name where the language forbids it. -/
inductive BadAccess where
  | startInImpl (struct : String)
  | notAssignable (name : String)
  | structAsValue (struct : String)
  | afterDot (name : String)
  | attributeOfStruct (attr struct : String)
  | selfInStatic (method : String)
  | attributeInStatic (attr method : String)
  | privateAttribute (attr owner : String)
  | noMembers (type : Ty) (member : String)
  | instanceMethod (method struct : String)
  | notInstantiable (struct : String)
  deriving DecidableEq

/-- The wording of a bad access. -/
def BadAccess.text : BadAccess → String
  | startInImpl struct => s!"'start' cannot be declared inside impl '{struct}'"
  | notAssignable name => s!"'{name}' cannot be assigned to"
  | structAsValue struct => s!"struct '{struct}' used as a value"
  | afterDot name => s!"'{name}' cannot follow '.'"
  | attributeOfStruct attr struct => s!"attribute '{attr}' of '{struct}' needs an instance"
  | selfInStatic method => s!"'self' cannot be used in static method '{method}'"
  | attributeInStatic attr method => s!"attribute '{attr}' used in static method '{method}'"
  | privateAttribute attr owner => s!"attribute '{attr}' is private to '{owner}'"
  | noMembers type member => s!"{type.text} has no member '{member}'"
  | instanceMethod method struct =>
    s!"instance method '{method}' of '{struct}' called without an instance"
  | notInstantiable struct => s!"built-in struct '{struct}' cannot be instantiated"

/-- Why a program is rejected. -/
inductive Cause where
  /-- A name that is used as a struct and is never declared. -/
  | undefinedType (name : String)
  /-- The type of a receiver names no struct of the table. -/
  | unregisteredReceiver (name : String)
  | cyclicInheritance (name : String)
  | invalidParent (name parent : String)
  | repeated (what : Repeated) (name : String)
  | invalidOverride (method : String) (fault : OverrideFault)
  | missing (name : String) (part : MissingPart)
  | mismatch (m : Mismatch)
  | badAccess (a : BadAccess)
  /-- A name that denotes nothing where it stands. -/
  | undefinedName (name : String)
  /-- A struct without a member of the given name. -/
  | undefinedMember (struct member : String)
  /-- A body whose method is not in the table. -/
  | bodyWithoutMethod (name : String)
  deriving DecidableEq

/-- The fault that a cause is worded as. -/
def Cause.fault : Cause → Fault
  | undefinedType name => .undefinedType name
  | unregisteredReceiver name => .undefinedType name
  | cyclicInheritance name => .cyclicInheritance name
  | invalidParent name parent => .invalidParent name parent
  | repeated what name => .duplicateDeclaration what.text name
  | invalidOverride method fault => .invalidOverride method fault.text
  | missing name part => .missingForm name part.text
  | mismatch m => .typeMismatch m.text
  | badAccess a => .invalidAccess a.text
  | undefinedName name => .undefinedSymbol name
  | undefinedMember struct member => .undefinedSymbol s!"{struct}.{member}"
  | bodyWithoutMethod name => .undefinedSymbol name

/-- The first fault of a program, with the place of the token that triggered it. -/
structure SemanticError where
  cause : Cause
  position : Position
  deriving DecidableEq

/-- A semantic error in words. -/
def SemanticError.diagnostic (e : SemanticError) : Diagnostic := ⟨e.cause.fault, e.position⟩

end StructLang
