import StructLang.Json.Writer
import StructLang.Layout

/-!
# Snapshots of the symbol table

A snapshot is a symbol table as a document.  It keeps every slot, so the layout of a struct can be
computed from a snapshot that was read back as well as from the table.
-/

namespace StructLang

open Json

/-- An attribute or a local variable in a snapshot. -/
structure VariableSnapshot where
  name : String
  ty : String
  /-- The struct of an attribute, the scope of a local variable. -/
  owner : String
  isPrivate : Bool
  inherited : Bool
  slot : UInt64
  deriving DecidableEq

/-- A parameter in a snapshot. -/
structure ParamSnapshot where
  name : String
  ty : String
  position : UInt64
  deriving DecidableEq

/-- A method in a snapshot. -/
structure MethodSnapshot where
  name : String
  owner : Option String
  kind : MethodKind
  slot : UInt64
  returnType : String
  params : List ParamSnapshot
  locals : List VariableSnapshot
  position : Position
  deriving DecidableEq

/-- A struct in a snapshot. -/
structure StructSnapshot where
  name : String
  parent : Option String
  children : List String
  position : Position
  builtin : Bool
  instantiated : Bool
  constructor : Option MethodSnapshot
  methods : List MethodSnapshot
  attributes : List VariableSnapshot
  deriving DecidableEq

/-- A symbol table as a document. -/
structure TableSnapshot where
  structs : List StructSnapshot
  start : Option MethodSnapshot
  deriving DecidableEq

/-! ## Taking snapshots -/

/-- The snapshot of an attribute. -/
def VariableSnapshot.ofAttr (a : Attr) : VariableSnapshot :=
  ⟨a.name, a.ty.text, a.owner, a.isPrivate, a.inherited, .ofNat a.slot⟩

/-- The snapshots of the local variables of a method, whose slots are their places in the list. -/
def VariableSnapshot.ofLocals (m : Method) : List VariableSnapshot :=
  m.locals.zipIdx.map fun (b, slot) => ⟨b.name, b.ty.text, m.scopeName, false, false, .ofNat slot⟩

/-- The snapshots of the parameters of a method. -/
def ParamSnapshot.ofParams (m : Method) : List ParamSnapshot :=
  m.params.zipIdx.map fun (b, position) => ⟨b.name, b.ty.text, .ofNat position⟩

/-- The snapshot of a method. -/
def MethodSnapshot.ofMethod (m : Method) : MethodSnapshot where
  name := m.name
  owner := m.owner
  kind := m.kind
  slot := .ofNat m.slot
  returnType := m.returnType.text
  params := ParamSnapshot.ofParams m
  locals := VariableSnapshot.ofLocals m
  position := m.token.position

/-- The snapshot of a struct, with its members in slot order. -/
def StructSnapshot.ofStruct (s : Struct) : StructSnapshot where
  name := s.name
  parent := s.parent
  children := s.children.names
  position := s.token.position
  builtin := s.builtin
  instantiated := s.instantiated
  constructor := s.constructor.map .ofMethod
  methods := s.methodsBySlot.map .ofMethod
  attributes := s.attributesBySlot.map .ofAttr

/-- The snapshot of a table, with its structs by name. -/
def TableSnapshot.ofTable (t : SymbolTable) : TableSnapshot where
  structs := t.structs.values.map .ofStruct
  start := t.start.map .ofMethod

/-! ## Layouts of snapshots -/

/-- The layout of a struct as its snapshot records it. -/
def StructSnapshot.dispatchTable (s : StructSnapshot) : DispatchTable :=
  .ofMembers s.name s.parent s.constructor.isSome
    (s.methods.map fun m => (⟨m.slot, m.name, m.owner.getD s.name⟩, m.kind.isStatic))
    (s.attributes.map fun a => ⟨a.slot, a.name, a.ty, a.owner⟩)

/-- The first struct of a snapshot with a given name. -/
def TableSnapshot.struct? (t : TableSnapshot) (name : String) : Option StructSnapshot :=
  t.structs.find? (·.name == name)

/-- The layout of a struct of a snapshot. -/
def TableSnapshot.dispatchTable? (t : TableSnapshot) (name : String) : Option DispatchTable :=
  (t.struct? name).map (·.dispatchTable)

/-! ## Writing -/

/-- The variable as a record. -/
def VariableSnapshot.toJson (v : VariableSnapshot) : Json :=
  .obj [("name", .str v.name), ("ty", .str v.ty), ("owner", .str v.owner),
    ("private", .bool v.isPrivate), ("inherited", .bool v.inherited), ("slot", .nat v.slot.toNat)]

/-- The parameter as a record. -/
def ParamSnapshot.toJson (p : ParamSnapshot) : Json :=
  .obj [("name", .str p.name), ("ty", .str p.ty), ("position", .nat p.position.toNat)]

/-- The method as a record. -/
def MethodSnapshot.toJson (m : MethodSnapshot) : Json :=
  .obj [("name", .str m.name), ("owner", .ofOption .str m.owner), ("kind", .str m.kind.name),
    ("slot", .nat m.slot.toNat), ("return_type", .str m.returnType),
    ("params", .ofList ParamSnapshot.toJson m.params),
    ("locals", .ofList VariableSnapshot.toJson m.locals), ("position", m.position.toJson)]

/-- The struct as a record. -/
def StructSnapshot.toJson (s : StructSnapshot) : Json :=
  .obj [("name", .str s.name), ("parent", .ofOption .str s.parent),
    ("children", .ofList .str s.children), ("position", s.position.toJson),
    ("builtin", .bool s.builtin), ("instantiated", .bool s.instantiated),
    ("constructor", .ofOption MethodSnapshot.toJson s.constructor),
    ("methods", .ofList MethodSnapshot.toJson s.methods),
    ("attributes", .ofList VariableSnapshot.toJson s.attributes)]

/-- The table as a record. -/
def TableSnapshot.toJson (t : TableSnapshot) : Json :=
  .obj [("structs", .ofList StructSnapshot.toJson t.structs),
    ("start", .ofOption MethodSnapshot.toJson t.start)]

/-- The document of a table snapshot. -/
def TableSnapshot.text (t : TableSnapshot) : String := t.toJson.pretty

/-! ## Reading -/

/-- Reads a variable. -/
def VariableSnapshot.decode : Decoder VariableSnapshot :=
  record ["name", "ty", "owner", "private", "inherited", "slot"] fun budget cells =>
    match cells with
    | [name, ty, owner, isPrivate, inherited, slot] => do
      return ⟨← name.required (Decoder.string budget), ← ty.required (Decoder.string budget),
        ← owner.required (Decoder.string budget), ← isPrivate.required (Decoder.bool budget),
        ← inherited.required (Decoder.bool budget), ← slot.required (Decoder.word64 budget)⟩
    | _ => none

/-- Reads a parameter. -/
def ParamSnapshot.decode : Decoder ParamSnapshot :=
  record ["name", "ty", "position"] fun budget cells =>
    match cells with
    | [name, ty, position] => do
      return ⟨← name.required (Decoder.string budget), ← ty.required (Decoder.string budget),
        ← position.required (Decoder.word64 budget)⟩
    | _ => none

/-- Reads a method. -/
def MethodSnapshot.decode : Decoder MethodSnapshot :=
  record ["name", "owner", "kind", "slot", "return_type", "params", "locals", "position"]
    fun budget cells =>
      match cells with
      | [name, owner, kind, slot, returnType, params, locals, position] => do
        return ⟨← name.required (Decoder.string budget), ← owner.nullable (Decoder.string budget),
          ← kind.required (MethodKind.decode budget), ← slot.required (Decoder.word64 budget),
          ← returnType.required (Decoder.string budget),
          ← params.required (Decoder.list ParamSnapshot.decode budget),
          ← locals.required (Decoder.list VariableSnapshot.decode budget),
          ← position.required (Position.decode budget)⟩
      | _ => none

/-- Reads a struct. -/
def StructSnapshot.decode : Decoder StructSnapshot :=
  record ["name", "parent", "children", "position", "builtin", "instantiated", "constructor",
    "methods", "attributes"] fun budget cells =>
      match cells with
      | [name, parent, children, position, builtin, instantiated, constructor, methods,
          attributes] => do
        return ⟨← name.required (Decoder.string budget), ← parent.nullable (Decoder.string budget),
          ← children.required (Decoder.list Decoder.string budget),
          ← position.required (Position.decode budget), ← builtin.required (Decoder.bool budget),
          ← instantiated.required (Decoder.bool budget),
          ← constructor.nullable (MethodSnapshot.decode budget),
          ← methods.required (Decoder.list MethodSnapshot.decode budget),
          ← attributes.required (Decoder.list VariableSnapshot.decode budget)⟩
      | _ => none

/-- Reads a table. -/
def TableSnapshot.decode : Decoder TableSnapshot :=
  record ["structs", "start"] fun budget cells =>
    match cells with
    | [structs, start] => do
      return ⟨← structs.required (Decoder.list StructSnapshot.decode budget),
        ← start.nullable (MethodSnapshot.decode budget)⟩
    | _ => none

/-- The table snapshot that a text holds. -/
def TableSnapshot.parse? (text : String) : Option TableSnapshot :=
  decodeText TableSnapshot.decode text

end StructLang
