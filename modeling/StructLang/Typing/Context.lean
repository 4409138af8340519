import StructLang.Program.Operator
import StructLang.SymbolTable.Basic

/-!
# What names denote in a body

A body is checked against the table and the method that it belongs to.  This module holds the rules
that look at one token at a time: what a name denotes at the head of a chain and after a dot, which
method a call means, what an operator gives.  The recursion over bodies is in `Typing.Check`.
-/

namespace StructLang

/-- What a link hands to the next one. -/
inductive Receiver where
  | value (ty : Ty)
  /-- A struct that stands for itself, for calls of its static methods. -/
  | struct (name : String)
  deriving DecidableEq

/-- The type that is stored for a receiver. -/
def Receiver.ty : Receiver → Ty
  | value ty => ty
  | struct name => .struct name

/-- A table and the method whose body is checked. -/
structure Context where
  table : SymbolTable
  method : Method

namespace Context

/-- The struct that declares the method. -/
def current (c : Context) : Option Struct := c.method.owner.bind c.table.struct?

/-! ## Accesses -/

/-- The attribute of a struct that a token names, as seen from the current struct. -/
def visibleAttribute (c : Context) (s : Struct) (token : Token) : Except SemanticError Receiver :=
  match s.lookup token.lexeme (c.current.map (·.name)) with
  | .visible a => .ok (.value a.ty)
  | .hidden a => .error ⟨.badAccess (.privateAttribute token.lexeme a.owner), token.position⟩
  | .missing => .error ⟨.undefinedMember s.name token.lexeme, token.position⟩

/-- The struct that holds the members of values of a type. -/
def memberStruct (c : Context) (ty : Ty) (token : Token) : Except SemanticError Struct :=
  match ty.structName? with
  | none => .error ⟨.badAccess (.noMembers ty token.lexeme), token.position⟩
  | some name =>
    match c.table.struct? name with
    | none => .error ⟨.unregisteredReceiver name, token.position⟩
    | some s => .ok s

/-- What an identifier denotes at the head of a chain: a local variable, else a parameter, else an
attribute of the current struct. -/
def identifier (c : Context) (token : Token) : Except SemanticError Receiver :=
  match c.method.local? token.lexeme, c.method.param? token.lexeme with
  | some b, _ => .ok (.value b.ty)
  | none, some b => .ok (.value b.ty)
  | none, none =>
    match c.current with
    | none => .error ⟨.undefinedName token.lexeme, token.position⟩
    | some s =>
      if !s.attributes.contains token.lexeme then
        .error ⟨.undefinedName token.lexeme, token.position⟩
      else if c.method.isStatic then
        .error ⟨.badAccess (.attributeInStatic token.lexeme c.method.name), token.position⟩
      else c.visibleAttribute s token

/-- What `self` denotes. -/
def selfValue (c : Context) (token : Token) : Except SemanticError Receiver :=
  match c.current, c.method.isStatic with
  | some s, false => .ok (.value (.struct s.name))
  | _, _ => .error ⟨.badAccess (.selfInStatic c.method.name), token.position⟩

/-- What a token denotes at the head of a chain.  A token that is neither a literal nor an
identifier names a struct. -/
def headAccess (c : Context) (token : Token) : Except SemanticError Receiver :=
  match token.kind with
  | .intLiteral => .ok (.value (.literal .int))
  | .strLiteral => .ok (.value (.literal .str))
  | .charLiteral => .ok (.value (.literal .char))
  | .trueLiteral | .falseLiteral => .ok (.value (.prim .bool))
  | .nilLiteral => .ok (.value .nil)
  | .selfValue => c.selfValue token
  | .objectId => c.identifier token
  | _ =>
    if c.table.contains token.lexeme then .ok (.struct token.lexeme)
    else .error ⟨.undefinedType token.lexeme, token.position⟩

/-- What a token denotes after a dot. -/
def memberAccess (c : Context) (receiver : Receiver) (token : Token) :
    Except SemanticError Receiver :=
  if token.kind ≠ .objectId then .error ⟨.badAccess (.afterDot token.lexeme), token.position⟩
  else match receiver with
    | .struct name => .error ⟨.badAccess (.attributeOfStruct token.lexeme name), token.position⟩
    | .value ty => do c.visibleAttribute (← c.memberStruct ty token) token

/-- What a token denotes, at the head of a chain or after a dot. -/
def access (c : Context) (receiver : Option Receiver) (token : Token) :
    Except SemanticError Receiver :=
  match receiver with
  | none => c.headAccess token
  | some receiver => c.memberAccess receiver token

/-- Refuses a link that can only stand at the head of a chain. -/
def requireHead (receiver : Option Receiver) (token : Token) : Except SemanticError Unit :=
  match receiver with
  | none => .ok ()
  | some _ => .error ⟨.badAccess (.afterDot token.lexeme), token.position⟩

/-! ## Calls -/

/-- The struct whose methods a call means, and whether only static ones may be called. -/
def callee (c : Context) (receiver : Option Receiver) (token : Token) :
    Except SemanticError (Struct × Bool) :=
  match receiver with
  | none =>
    match c.current with
    | some s => .ok (s, c.method.isStatic)
    | none => .error ⟨.undefinedName token.lexeme, token.position⟩
  | some (.struct name) =>
    match c.table.struct? name with
    | some s => .ok (s, true)
    | none => .error ⟨.unregisteredReceiver name, token.position⟩
  | some (.value ty) => do return (← c.memberStruct ty token, false)

/-- The method that a call means. -/
def calledMethod (c : Context) (receiver : Option Receiver) (token : Token) :
    Except SemanticError Method := do
  let (s, staticOnly) ← c.callee receiver token
  match s.methods.get? token.lexeme with
  | none => .error ⟨.undefinedMember s.name token.lexeme, token.position⟩
  | some m =>
    if staticOnly && !m.isStatic then
      .error ⟨.badAccess (.instanceMethod m.name s.name), token.position⟩
    else .ok m

/-- The struct that a token names after `new`. -/
def createdStruct (c : Context) (token : Token) : Except SemanticError Struct :=
  match c.table.struct? token.lexeme with
  | none => .error ⟨.undefinedType token.lexeme, token.position⟩
  | some s =>
    if s.builtin && token.lexeme != Builtin.root then
      .error ⟨.badAccess (.notInstantiable token.lexeme), token.position⟩
    else .ok s

/-- The parameters of the constructor of a struct.  A struct without a constructor takes no
arguments. -/
def constructorParams (s : Struct) (token : Token) (args : Nat) :
    Except SemanticError (List Binding) :=
  match s.constructor with
  | some m => .ok m.params
  | none =>
    if args = 0 then .ok []
    else .error ⟨.mismatch (.constructorArguments token.lexeme args), token.position⟩

/-- Refuses a number of arguments that is not the number of parameters. -/
def requireArity (params : List Binding) (token : Token) (args : Nat) : Except SemanticError Unit :=
  if params.length = args then .ok ()
  else .error ⟨.mismatch (.argumentCount token.lexeme params.length args), token.position⟩

/-! ## Operators and values -/

/-- Refuses a value that may not be stored where a type is expected. -/
def requireAssignable (c : Context) (value target : Ty) (mismatch : Mismatch) (place : Position) :
    Except SemanticError Unit :=
  if c.table.isAssignable value target then .ok () else .error ⟨.mismatch mismatch, place⟩

/-- Refuses a type that does not pass a test. -/
def require (holds : Bool) (mismatch : Mismatch) (place : Position) : Except SemanticError Unit :=
  if holds then .ok () else .error ⟨.mismatch mismatch, place⟩

/-- The type of a unary expression, given the type of its operand. -/
def unaryType (operator : Token) (op : UnaryOperator) (ty : Ty) : Except SemanticError Ty := do
  let symbol := operator.lexeme
  let place := operator.position
  require (!ty.isArray) (.operandArray symbol) place
  match op with
  | .increment | .decrement =>
    require (!ty.isLiteral) (.operandLiteral symbol) place
    require ty.isInt (.operandNotInt symbol ty) place
    return .prim .int
  | .not =>
    require ty.isBool (.operandNotBool ty) place
    return .prim .bool
  | .plus | .minus =>
    require ty.isInt (.operandNotInt symbol ty) place
    return ty

/-- The type of a binary expression, given the types of its operands.  Two values can be compared
for equality when one of them may be stored where the other is expected. -/
def binaryType (c : Context) (operator : Token) (op : BinaryOperator) (left right : Ty) :
    Except SemanticError Ty := do
  let mismatch := Mismatch.operands operator.lexeme left right
  let place := operator.position
  match op with
  | .add | .sub | .mul | .div | .mod =>
    require (left.isInt && right.isInt) mismatch place
    return .prim .int
  | .lt | .le | .gt | .ge =>
    require (left.isInt && right.isInt) mismatch place
    return .prim .bool
  | .and | .or =>
    require (left.isBool && right.isBool) mismatch place
    return .prim .bool
  | .eq | .ne =>
    let l := left.unliteral
    let r := right.unliteral
    require (c.table.isAssignable l r || c.table.isAssignable r l) mismatch place
    return .prim .bool

end Context

end StructLang
