import StructLang.SymbolTable.Consolidate
import StructLang.Typing.Check

/-!
# Analysis

A program is analysed in three steps: its items are declared in source order, the table is
consolidated, and every body is checked in source order.  The first fault ends the analysis.  The
check of a body starts with no struct created, and what it collects is added to that of the bodies
before it; when all bodies are accepted, the collected structs are marked in the table.
-/

namespace StructLang

open SymbolTable

/-! ## Declaring items -/

/-- Declares a method of an impl block with its parameters and locals. -/
def MethodDef.declare (impl : Token) (d : MethodDef) : Declaring Unit := do
  if d.kind = .start then
    throw ⟨.badAccess (.startInImpl impl.lexeme), d.name.position⟩
  declareMethod d.name d.kind d.returnType
  d.params.forM fun p => declareParam p.name p.ty
  d.locals.forM fun v => declareVar v.name v.ty false

/-- Declares an item with all that it holds. -/
def Item.declare : Item → Declaring Unit
  | .struct d => do
    declareStruct d.name d.parent .structural
    d.attributes.forM fun a => declareVar a.name a.ty a.isPrivate
    closeScope
  | .impl d => do
    declareStruct d.name none .implementation
    d.methods.forM (MethodDef.declare d.name)
    closeScope
  | .start d => do
    declareMethod d.token .start none
    d.locals.forM fun v => declareVar v.name v.ty false
    closeScope

/-- Declares all items and consolidates the table. -/
def Program.declare (p : Program) : Declaring Unit := do
  p.items.forM Item.declare
  consolidate

/-! ## Checking bodies -/

/-- The body of a method or of the start item. -/
structure Body (α : Type) where
  /-- The struct of the impl block; none for the start item. -/
  owner : Option String
  token : Token
  kind : MethodKind
  block : Block α

/-- The bodies of an item. -/
def Item.bodies : Item → List (Body Unit)
  | .struct _ => []
  | .impl d => d.methods.map fun m => ⟨some d.name.lexeme, m.name, m.kind, m.body⟩
  | .start d => [⟨none, d.token, .start, d.body⟩]

/-- The bodies of a program in source order. -/
def Program.bodies (p : Program) : List (Body Unit) := p.items.flatMap Item.bodies

/-- Checks a body against the method that the table holds for it, and adds the structs that the body
creates. -/
def Body.check (t : SymbolTable) (b : Body Unit) :
    StateT NameSet (Except SemanticError) (Body (Option Ty)) :=
  match t.method? b.owner b.kind b.token.lexeme with
  | none => throw ⟨.bodyWithoutMethod b.token.lexeme, b.token.position⟩
  | some m =>
    match b.block.blank.check ⟨t, m⟩ .empty with
    | ⟨_, _, .error e⟩ => throw e
    | ⟨block, created, .ok _⟩ => do
      modify (·.insertAll created.names)
      return ⟨b.owner, b.token, b.kind, block⟩

/-! ## The whole -/

/-- What is known of an accepted program. -/
structure Analysis where
  table : SymbolTable
  bodies : List (Body (Option Ty))

/-- The table with the created structs marked. -/
def SymbolTable.markCreated (t : SymbolTable) (created : NameSet) : SymbolTable :=
  created.names.foldl markInstantiated t

/-- Analyses a program. -/
def Program.analyze (p : Program) : Except SemanticError Analysis :=
  match p.declare.run .new with
  | .error e _ => .error e
  | .ok _ t => do
    let (bodies, created) ← (p.bodies.mapM (Body.check t)).run .empty
    return ⟨t.markCreated created, bodies⟩

end StructLang
