import StructLang.SymbolTable.Basic

/-!
# Declarations

The declarations that fill a symbol table: struct items and impl blocks, methods, parameters and
variables.  A declaration may come before the declarations that it refers to:

* a struct whose parent is not declared yet stands under the root and waits for the parent;
* a type that is not declared yet is noted, and the note goes when the type is declared.

A declaration that fails may leave a change behind: the place that a struct has taken in the tree
before a cycle was found, or the note of an undeclared type.  So every declaration is an action on
the table whose failure keeps the state, and the table can be used after a failure.
-/

namespace StructLang

/-- A change of the symbol table that may fail on the way. -/
abbrev Declaring := EStateM SemanticError SymbolTable

namespace SymbolTable

/-! ## The tree -/

/-- The table with a struct moved under a parent. -/
def setParent (t : SymbolTable) (child parent : String) : SymbolTable :=
  let structs := t.structs.modify child fun s => { s with parent := some parent }
  let structs := match t.parent? child with
    | some previous =>
      structs.modify previous fun s => { s with children := s.children.erase child }
    | none => structs
  { t with
    structs := structs.modify parent fun s => { s with children := s.children.insert child } }

/-- The table with a new struct under a parent. -/
def addStruct (t : SymbolTable) (token : Token) (parent : String) : SymbolTable :=
  let structs := t.structs.insert token.lexeme (.declare token (some parent))
  { t with
    structs := structs.modify parent fun s => { s with children := s.children.insert token.lexeme } }

/-- The table with a struct noted as waiting for its parent. -/
def awaitParent (t : SymbolTable) (child : String) (reference : Token) : SymbolTable :=
  let waiting := (t.pendingParents.get? reference.lexeme).getD []
  { t with
    pendingParents := t.pendingParents.insert reference.lexeme (waiting ++ [⟨child, reference⟩]) }

/-- The table with every struct that waits for a parent moved under it. -/
def adoptWaiting (t : SymbolTable) (parent : String) : SymbolTable :=
  match t.pendingParents.get? parent with
  | none => t
  | some waiting =>
    waiting.foldl (fun t w => t.setParent w.child parent)
      { t with pendingParents := t.pendingParents.erase parent }

/-- The table with a struct in the place that its declaration gives it.  An impl block gives no
place, and a parent that is not registered is awaited under the root. -/
def place (t : SymbolTable) (token : Token) (parent : Option Token) (form : Form) : SymbolTable :=
  let name := token.lexeme
  let (home, t) := match parent with
    | none => (Builtin.root, t)
    | some p =>
      if t.contains p.lexeme then (p.lexeme, t) else (Builtin.root, t.awaitParent name p)
  let t :=
    if !t.contains name then t.addStruct token home
    else if form = .structural then t.setParent name home
    else t
  let t := t.adoptWaiting name
  { t with pendingTypes := t.pendingTypes.erase name }

/-- Whether the way up from a name, given that some have been `seen` on it, comes to one of them
before it comes to the root, as far as `steps` allow. -/
def returnsWithin (t : SymbolTable) : Nat → NameSet → Option String → Bool
  | 0, _, _ | _, _, none => false
  | steps + 1, seen, some name =>
    if name = Builtin.root then false
    else if seen.contains name then true
    else t.returnsWithin steps (seen.insert name) (t.parent? name)

/-- Whether the ancestors of a struct go in a circle.  A way on which no name is met twice has no more
steps than there are structs. -/
def isCyclic (t : SymbolTable) (name : String) : Bool :=
  t.returnsWithin t.structs.size (.insert .empty name) (t.parent? name)

/-- Why a declaration of a struct is refused before it changes the table, if it is. -/
def structRefusal? (t : SymbolTable) (token : Token) (parent : Option Token) (form : Form) :
    Option SemanticError :=
  let name := token.lexeme
  if Builtin.isReserved name then some ⟨.repeated .builtinStruct name, token.position⟩
  else if (t.struct? name).any (·.hasForm form) then
    some ⟨.repeated form.repeated name, token.position⟩
  else match parent with
    | none => none
    | some p =>
      if Builtin.isSealed p.lexeme || p.lexeme == name then
        some ⟨.invalidParent name p.lexeme, p.position⟩
      else none

/-- Declares one form of a struct and opens the struct.  Only the structural form has a parent. -/
def declareStruct (token : Token) (parent : Option Token) (form : Form) : Declaring Unit := do
  let parent := if form = .structural then parent else none
  if let some refusal := (← get).structRefusal? token parent form then
    throw refusal
  modify (·.place token parent form)
  if (← get).isCyclic token.lexeme then
    throw ⟨.cyclicInheritance token.lexeme, token.position⟩
  modify fun t => { t with
    structs := t.structs.modify token.lexeme (·.recordForm form)
    scope := .struct token.lexeme }

/-! ## Members -/

/-- The type that a token names.  A struct that is not registered is noted. -/
def resolveType (token : Token) : Declaring Ty := do
  let ty := Ty.ofName token.lexeme
  if let .struct name := ty then
    modify fun t =>
      if t.contains name then t
      else
        let uses := (t.pendingTypes.get? name).getD []
        { t with pendingTypes := t.pendingTypes.insert name (uses ++ [token]) }
  return ty

/-- Changes a registered struct, if the change is allowed. -/
def modifyStruct (name : String) (f : Struct → Except SemanticError Struct) : Declaring Unit := do
  if let some s := (← get).struct? name then
    match f s with
    | .ok s => modify fun t => { t with structs := t.structs.insert name s }
    | .error e => throw e

/-- Declares a method of the open struct, or the start method, and opens it. -/
def declareMethod (token : Token) (kind : MethodKind) (returnType : Option Token) :
    Declaring Unit := do
  if kind = .start then
    if (← get).start.isSome then
      throw ⟨.repeated .startMethod token.lexeme, token.position⟩
    modify fun t => { t with start := some (.declare token none kind .void 0), scope := .start }
  else
    let ty ← match kind, returnType with
      | .constructor, _ | _, none => pure Ty.void
      | _, some ty => resolveType ty
    match (← get).scope.struct? with
    | none => throw ⟨.missing token.lexeme .enclosingImpl, token.position⟩
    | some owner =>
      modifyStruct owner (·.addMethod token kind ty)
      modify fun t => { t with
        scope := if kind = .constructor then .constructor owner else .method owner token.lexeme }

/-- The method that is open. -/
def openMethod? (t : SymbolTable) : Option Method :=
  match t.scope with
  | .closed | .struct _ => none
  | .start => t.start
  | .constructor owner => (t.struct? owner).bind (·.constructor)
  | .method owner name => (t.struct? owner).bind (·.methods.get? name)

/-- The table with another record for the method that is open. -/
def setOpenMethod (t : SymbolTable) (m : Method) : SymbolTable :=
  match t.scope with
  | .closed | .struct _ => t
  | .start => { t with start := some m }
  | .constructor owner =>
    { t with structs := t.structs.modify owner fun s => { s with constructor := some m } }
  | .method owner name =>
    { t with structs := t.structs.modify owner fun s => { s with methods := s.methods.insert name m } }

/-- Changes the method that is open, if the change is allowed.  The token is that of the declaration
that needs the method. -/
def modifyOpenMethod (token : Token) (f : Method → Except SemanticError Method) :
    Declaring Unit := do
  match (← get).openMethod? with
  | none => throw ⟨.missing token.lexeme .enclosingMethod, token.position⟩
  | some m =>
    match f m with
    | .ok m => modify (·.setOpenMethod m)
    | .error e => throw e

/-- Declares a parameter of the open method. -/
def declareParam (token type : Token) : Declaring Unit := do
  let ty ← resolveType type
  modifyOpenMethod token (·.addParam token ty)

/-- Declares a local variable of the open method or, with no method open, an attribute of the open
struct. -/
def declareVar (token type : Token) (isPrivate : Bool) : Declaring Unit := do
  let ty ← resolveType type
  match (← get).scope with
  | .start | .constructor _ | .method _ _ => modifyOpenMethod token (·.addLocal token ty)
  | .struct owner =>
    unless (← get).contains owner do
      throw ⟨.missing token.lexeme .enclosingStruct, token.position⟩
    modifyStruct owner (·.addAttribute token ty isPrivate)
  | .closed => throw ⟨.missing token.lexeme .enclosingStruct, token.position⟩

/-- Closes what is open. -/
def closeScope : Declaring Unit :=
  modify fun t => { t with scope := .closed }

end SymbolTable

end StructLang
