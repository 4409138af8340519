import StructLang.Struct.Basic

/-!
# Inheritance

How a struct takes over the members of its parent, whose own members are final by then.

* Methods: an inherited method keeps its slot.  A method that the struct declares under the same
  name overrides it, if their signatures agree and the ancestor's is not static, and takes its slot.
  The struct's other methods move above the inherited ones, in the order of their declaration.
* Attributes: an inherited attribute keeps its slot and is marked, no name may occur twice, and the
  attributes without the mark move above the inherited ones.

A clash stops the merge where it occurs: members that were merged before it stay in the struct.  The
merge is therefore an action on the struct whose failure keeps the state.
-/

namespace StructLang.Struct

/-- A change of a struct that may fail on the way. -/
abbrev Merge := EStateM SemanticError Struct

/-- Why a method may not override an ancestor's method, if it may not. -/
def overrideFault? (own ancestor : Method) : Option OverrideFault :=
  let owner := ancestor.owner.getD ""
  if ancestor.isStatic then some (.staticMethod ancestor.name owner)
  else if own.signature ≠ ancestor.signature then
    some (.parameters own.signature ancestor.signature owner)
  else if own.returnType ≠ ancestor.returnType then
    some (.returnType own.returnType ancestor.returnType owner)
  else none

/-- Takes over one method: copies it, or lets the method of the same name override it. -/
def inheritMethod (ancestor : Method) : Merge Unit := do
  let s ← get
  match s.methods.get? ancestor.name with
  | none => set { s with methods := s.methods.insert ancestor.name ancestor }
  | some own =>
    match overrideFault? own ancestor with
    | some fault => throw ⟨.invalidOverride own.name fault, own.token.position⟩
    | none =>
      set { s with methods := s.methods.insert ancestor.name { own with slot := ancestor.slot } }

/-- The methods that the struct declares and that override none of the inherited ones, in the order
of their declaration. -/
def newMethods (s : Struct) (inherited : NameMap Method) : List Method :=
  Method.bySlot (s.methods.values.filter fun m =>
    m.owner == some s.name && !inherited.contains m.name)

/-- The struct with its new methods numbered from the end of the inherited slots. -/
def renumberMethods (s : Struct) (inherited : NameMap Method) : Struct :=
  let methods := ((s.newMethods inherited).zipIdx inherited.size).foldl
    (fun methods (m, slot) => methods.insert m.name { m with slot := slot }) s.methods
  { s with methods := methods, nextMethodSlot := methods.size }

/-- Takes over the methods of the parent. -/
def inheritMethods (inherited : NameMap Method) : Merge Unit := do
  unless inherited.isEmpty do
    (Method.bySlot inherited.values).forM inheritMethod
    modify (·.renumberMethods inherited)

/-- Takes over one attribute, whose name has to be new. -/
def inheritAttribute (ancestor : Attr) : Merge Unit := do
  let s ← get
  match s.attributes.get? ancestor.name with
  | some own => throw ⟨.repeated .inheritedAttribute own.name, own.token.position⟩
  | none => set { s with attributes := s.attributes.insert ancestor.name ancestor.copied }

/-- The struct with its own attributes moved above the inherited slots. -/
def renumberAttributes (s : Struct) (inherited : NameMap Attr) : Struct :=
  let own := s.attributes.values.filter (!·.inherited)
  let attributes := own.foldl
    (fun attributes a => attributes.insert a.name { a with slot := a.slot + inherited.size })
    s.attributes
  { s with attributes := attributes, nextAttributeSlot := attributes.size }

/-- Takes over the attributes of the parent. -/
def inheritAttributes (inherited : NameMap Attr) : Merge Unit := do
  unless inherited.isEmpty do
    (Attr.bySlot inherited.values).forM inheritAttribute
    modify (·.renumberAttributes inherited)

/-- Takes over the members of the parent. -/
def inheritFrom (parent : Struct) : Merge Unit := do
  inheritMethods parent.methods
  inheritAttributes parent.attributes
  modify fun s => { s with consolidated := true }

end StructLang.Struct
