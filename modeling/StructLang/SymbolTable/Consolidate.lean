import StructLang.Struct.Inherit
import StructLang.SymbolTable.Declare

/-!
# Consolidation

When all declarations are in, the table is consolidated: nothing may be left undeclared, every
struct needs both of its forms and a constructor, and every struct takes over the members of its
parent.

The walk over the tree visits a struct after its parent.  At a struct all its children take over its
members, the last one by name first; then the walk goes on with the first child by name.  So a
failure leaves the structs before it merged and the one that failed merged in part.
-/

namespace StructLang.SymbolTable

/-- The first name that is used and not declared: a parent, or else a type. -/
def undeclared? (t : SymbolTable) : Option SemanticError :=
  match t.pendingParents.first?, t.pendingTypes.first? with
  | some (name, waiting), _ =>
    some ⟨.undefinedType name, (waiting.head?.map (·.reference.position)).getD .origin⟩
  | none, some (name, uses) => some ⟨.undefinedType name, (uses.head?.map (·.position)).getD .origin⟩
  | none, none => none

/-- The first struct by name whose declaration lacks a part. -/
def incomplete? (t : SymbolTable) : Option SemanticError :=
  t.userStructs.findSome? fun s =>
    s.missingPart?.map fun part => ⟨.missing s.name part, s.token.position⟩

/-- Merges the members of a parent into one of its children, unless that was done before. -/
def mergeChild (parent : Struct) (child : String) : Declaring Unit := do
  if let some s := (← get).struct? child then
    unless s.consolidated do
      match (Struct.inheritFrom parent).run s with
      | .ok _ s => modify fun t => { t with structs := t.structs.insert child s }
      | .error e s =>
        modify fun t => { t with structs := t.structs.insert child s }
        throw e

/-- Walks over the tree from the structs of a stack.  Every struct is visited once, so as many steps
as there are structs are enough. -/
def mergeFrom : Nat → List String → Declaring Unit
  | 0, _ | _, [] => pure ()
  | steps + 1, name :: stack => do
    match (← get).struct? name with
    | none => mergeFrom steps stack
    | some s =>
      s.children.names.reverse.forM (mergeChild s)
      mergeFrom steps (s.children.names ++ stack)

/-- Completes the table.  A table that is complete stays as it is. -/
def consolidate : Declaring Unit := do
  let t ← get
  unless t.consolidated do
    if let some e := t.undeclared? then throw e
    if let some e := t.incomplete? then throw e
    mergeFrom t.structs.size [Builtin.root]
    modify fun t => { t with consolidated := true }

end StructLang.SymbolTable
