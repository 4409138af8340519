import StructLang.Builtin

/-!
# The symbol table

All structs of a program with the start method, the references to structs that are not declared yet,
and the scope that is open for further declarations.
-/

namespace StructLang

/-- What is open for further declarations. -/
inductive Scope where
  | closed
  /-- A struct, with no method open. -/
  | struct (name : String)
  /-- The constructor of a struct. -/
  | constructor (struct : String)
  /-- A method of a struct. -/
  | method (struct name : String)
  | start
  deriving DecidableEq

/-- The struct that is open. -/
def Scope.struct? : Scope → Option String
  | struct name | constructor name | method name _ => some name
  | closed | start => none

/-- A struct that waits for its parent to be declared. -/
structure Waiting where
  child : String
  /-- The token that names the parent. -/
  reference : Token
  deriving DecidableEq

/-- The structs of a program, declared so far. -/
structure SymbolTable where
  structs : NameMap Struct
  start : Option Method
  /-- Under every undeclared parent, the structs that wait for it, first come first. -/
  pendingParents : NameMap (List Waiting)
  /-- Under every undeclared type, the tokens that use it, first come first. -/
  pendingTypes : NameMap (List Token)
  scope : Scope
  consolidated : Bool

namespace SymbolTable

/-- The table before any declaration. -/
def new : SymbolTable where
  structs := Builtin.structs
  start := none
  pendingParents := .empty
  pendingTypes := .empty
  scope := .closed
  consolidated := false

/-- The struct with a given name. -/
def struct? (t : SymbolTable) (name : String) : Option Struct := t.structs.get? name

/-- Whether a struct with the given name is registered. -/
def contains (t : SymbolTable) (name : String) : Bool := t.structs.contains name

/-- The structs that are not built in, by name. -/
def userStructs (t : SymbolTable) : List Struct := t.structs.values.filter (!·.builtin)

/-- The declared method of a struct; without a struct, the start method. -/
def method? (t : SymbolTable) (owner : Option String) (kind : MethodKind) (name : String) :
    Option Method :=
  match owner with
  | none => t.start
  | some owner => (t.struct? owner).bind (·.method? kind name)

/-- The parent of a registered struct. -/
def parent? (t : SymbolTable) (name : String) : Option String :=
  (t.struct? name).bind (·.parent)

/-! ## Subtypes -/

/-- A name and its ancestors, nearest first, as far as `steps` allow. -/
def lineageWithin (t : SymbolTable) : Nat → String → List String
  | 0, _ => []
  | steps + 1, name =>
    name :: match t.parent? name with
      | none => []
      | some parent => t.lineageWithin steps parent

/-- A name and its ancestors, nearest first.  Without a cycle no lineage has more steps than there
are structs, and one for a name that is not registered. -/
def lineage (t : SymbolTable) (name : String) : List String :=
  t.lineageWithin (t.structs.size + 1) name

/-- Whether `child` is `ancestor` or one of its descendants. -/
def isSubtype (t : SymbolTable) (child ancestor : String) : Bool :=
  (t.lineage child).contains ancestor

/-- Whether a value of one type may be stored where another type is expected. -/
def isAssignable (t : SymbolTable) (value target : Ty) : Bool :=
  value == target ||
    match value, target with
    | .literal v, .prim p => v == p
    | .nil, .struct _ | .nil, .array _ => true
    | .struct v, .struct p => t.isSubtype v p
    | _, _ => false

/-- The table with a struct marked as created by some body. -/
def markInstantiated (t : SymbolTable) (name : String) : SymbolTable :=
  { t with structs := t.structs.modify name fun s => { s with instantiated := true } }

end SymbolTable

end StructLang
