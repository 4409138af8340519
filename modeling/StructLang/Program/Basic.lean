import StructLang.Member

/-!
# Programs

The abstract syntax of a program as the parser hands it over.

Expressions carry a result at every node and at every link of a chain.  A parsed program has nothing
there (`Unit`), a checked one has a type (`Ty`); the tree is otherwise the same, so the type of
results is a parameter.
-/

namespace StructLang

/-! ## Expressions -/

mutual

/-- An expression with results of type `α`. -/
inductive Expression (α : Type) where
  | access (chain : Chain α)
  | unary (operator : Token) (operand : Chain α) (result : α)
  | binary (left : Expression α) (operator : Token) (right : Expression α) (result : α)

/-- A chain of accesses such as `a.b.c()`.  Every link is taken on the value of the one before. -/
structure Chain (α : Type) where
  head : Link α
  rest : List (Link α)

/-- A link of a chain.  Its token is an identifier, a literal, `self`, the name of a struct or of an
element type, or an opening parenthesis. -/
structure Link (α : Type) where
  token : Token
  action : Action α
  result : α

/-- What a link does. -/
inductive Action (α : Type) where
  /-- A variable, an attribute, a literal, `self` or the name of a struct. -/
  | simple
  | call (args : List (Expression α))
  | index (position : Expression α)
  /-- A new instance of the struct that the token names. -/
  | newInstance (args : List (Expression α))
  /-- A new array with elements of the type that the token names. -/
  | newArray (dimension : Expression α)
  | group (inner : Expression α)

end

variable {α : Type}

/-- The name of an action in documents. -/
def Action.name : Action α → String
  | simple => "simple_access"
  | call _ => "method_call"
  | index _ => "array_access"
  | newInstance _ => "create_instance"
  | newArray _ => "create_array"
  | group _ => "parenthesized"

/-- A link that only names something. -/
def Action.isSimple : Action α → Bool
  | simple => true
  | _ => false

namespace Chain

/-- The last link. -/
def last (c : Chain α) : Link α := c.rest.getLast?.getD c.head

/-- A chain continued by another one. -/
def append (c d : Chain α) : Chain α := ⟨c.head, c.rest ++ d.head :: d.rest⟩

/-- The result of a chain, which is the result of its last link. -/
def result (c : Chain α) : α := c.last.result

/-- The place of a chain, which is the place of its first token. -/
def position (c : Chain α) : Position := c.head.token.position

/-- A chain of one link that only names something. -/
def isSimple (c : Chain α) : Bool := c.head.action.isSimple && c.rest.isEmpty

end Chain

namespace Expression

/-- The result at the top of an expression. -/
def result : Expression α → α
  | access chain => chain.result
  | unary _ _ result => result
  | binary _ _ _ result => result

/-- The place of an expression: its first token, or its operator. -/
def position : Expression α → Position
  | access chain => chain.position
  | unary operator _ _ => operator.position
  | binary _ operator _ _ => operator.position

end Expression

/-! ## Sentences -/

/-- A statement. -/
inductive Sentence (α : Type) where
  | block (sentences : List (Sentence α))
  | conditional (token : Token) (condition : Expression α) (thenBranch : Sentence α)
      (elseBranch : Option (Sentence α))
  | loop (token : Token) (condition : Expression α) (body : Sentence α)
  | assignment (target : Chain α) (token : Token) (value : Expression α)
  | giveBack (token : Token) (value : Option (Expression α))
  | expression (e : Expression α)

/-- A sequence of statements. -/
abbrev Block (α : Type) := List (Sentence α)

/-! ## Items -/

/-- A typed name: a parameter or a local variable. -/
structure VarDef where
  name : Token
  ty : Token
  deriving DecidableEq

/-- An attribute of a struct item. -/
structure AttrDef where
  name : Token
  ty : Token
  isPrivate : Bool
  deriving DecidableEq

/-- A struct item. -/
structure StructDef where
  name : Token
  parent : Option Token
  attributes : List AttrDef
  deriving DecidableEq

/-- A method or constructor of an impl block.  Without a return type it returns nothing. -/
structure MethodDef where
  name : Token
  kind : MethodKind
  params : List VarDef
  returnType : Option Token
  locals : List VarDef
  body : Block Unit

/-- An impl block. -/
structure ImplDef where
  name : Token
  methods : List MethodDef

/-- A start item. -/
structure StartDef where
  token : Token
  locals : List VarDef
  body : Block Unit

/-- A top-level item. -/
inductive Item where
  | struct (d : StructDef)
  | impl (d : ImplDef)
  | start (d : StartDef)

/-- A program: its items in source order. -/
structure Program where
  items : List Item

end StructLang
