import StructLang.SymbolTable.Basic

/-!
# Dispatch layout

The flat view of a struct for code generation: the slots of its virtual table, its static methods
and the slots of its instance records.  Slots are machine words here, as in every document.
-/

namespace StructLang

open Json

/-- A method of a dispatch table. -/
structure MethodSlot where
  slot : UInt64
  method : String
  /-- The struct whose body runs. -/
  owner : String
  deriving DecidableEq

/-- The label of the body that runs. -/
def MethodSlot.label (s : MethodSlot) : String := s.owner ++ "_" ++ s.method

/-- An attribute of an instance record. -/
structure AttributeSlot where
  slot : UInt64
  name : String
  ty : String
  owner : String
  deriving DecidableEq

/-- The layout of a struct. -/
structure DispatchTable where
  structName : String
  parent : Option String
  /-- The label of the constructor body. -/
  constructor : Option String
  methods : List MethodSlot
  staticMethods : List MethodSlot
  attributes : List AttributeSlot
  deriving DecidableEq

namespace DispatchTable

/-- Method slots in slot order. -/
def sortMethods (methods : List MethodSlot) : List MethodSlot :=
  sortBySlot (fun s => (s.slot.toNat, s.method)) methods

/-- Attribute slots in slot order. -/
def sortAttributes (attributes : List AttributeSlot) : List AttributeSlot :=
  sortBySlot (fun s => (s.slot.toNat, s.name)) attributes

/-- The layout with the given members, each method with a mark that says whether it is static. -/
def ofMembers (structName : String) (parent : Option String) (hasConstructor : Bool)
    (methods : List (MethodSlot × Bool)) (attributes : List AttributeSlot) : DispatchTable where
  structName := structName
  parent := parent
  constructor := if hasConstructor then some (structName ++ "_ctor") else none
  methods := sortMethods ((methods.filter (!·.2)).map (·.1))
  staticMethods := sortMethods ((methods.filter (·.2)).map (·.1))
  attributes := sortAttributes attributes

/-- The layout of a struct. -/
def ofStruct (s : Struct) : DispatchTable :=
  ofMembers s.name s.parent s.constructor.isSome
    (s.methodsBySlot.map fun m => (⟨.ofNat m.slot, m.name, m.owner.getD s.name⟩, m.isStatic))
    (s.attributesBySlot.map fun a => ⟨.ofNat a.slot, a.name, a.ty.text, a.owner⟩)

/-- The label of the virtual table. -/
def label (d : DispatchTable) : String := "VT_" ++ d.structName

/-- The size of an instance record in words: one for the virtual table, one per attribute. -/
def recordSize (d : DispatchTable) : Nat := 1 + d.attributes.length

/-- The lines of a layout as text. -/
def lines (d : DispatchTable) : List String :=
  [match d.parent with
    | some parent => s!"{d.structName} : {parent} ({d.recordSize} words)"
    | none => s!"{d.structName} ({d.recordSize} words)"]
  ++ (d.constructor.map fun label => s!"  ctor      {label}").toList
  ++ [s!"  {d.label}:"]
  ++ d.methods.map (fun s => s!"    [{s.slot.toNat}] {s.method} -> {s.label}")
  ++ d.staticMethods.map (fun s => s!"  st [{s.slot.toNat}] {s.method} -> {s.label}")
  ++ d.attributes.map (fun a => s!"  +{a.slot.toNat} {a.name}: {a.ty} ({a.owner})")

/-- The text of a layout, with a line break after every line. -/
def text (d : DispatchTable) : String := String.join (d.lines.map (· ++ "\n"))

end DispatchTable

/-- The layout of a registered struct. -/
def SymbolTable.dispatchTable? (t : SymbolTable) (name : String) : Option DispatchTable :=
  (t.struct? name).map .ofStruct

/-! ## Documents -/

namespace MethodSlot

/-- The slot as a record. -/
def toJson (s : MethodSlot) : Json :=
  .obj [("slot", .nat s.slot.toNat), ("method", .str s.method), ("owner", .str s.owner)]

/-- Reads a slot record. -/
def decode : Decoder MethodSlot :=
  record ["slot", "method", "owner"] fun budget cells =>
    match cells with
    | [slot, method, owner] => do
      return ⟨← slot.required (Decoder.word64 budget), ← method.required (Decoder.string budget),
        ← owner.required (Decoder.string budget)⟩
    | _ => none

end MethodSlot

namespace AttributeSlot

/-- The slot as a record. -/
def toJson (s : AttributeSlot) : Json :=
  .obj [("slot", .nat s.slot.toNat), ("name", .str s.name), ("ty", .str s.ty),
    ("owner", .str s.owner)]

/-- Reads a slot record. -/
def decode : Decoder AttributeSlot :=
  record ["slot", "name", "ty", "owner"] fun budget cells =>
    match cells with
    | [slot, name, ty, owner] => do
      return ⟨← slot.required (Decoder.word64 budget), ← name.required (Decoder.string budget),
        ← ty.required (Decoder.string budget), ← owner.required (Decoder.string budget)⟩
    | _ => none

end AttributeSlot

namespace DispatchTable

/-- The layout as a record. -/
def toJson (d : DispatchTable) : Json :=
  .obj [("struct_name", .str d.structName), ("parent", .ofOption .str d.parent),
    ("constructor", .ofOption .str d.constructor), ("methods", .ofList MethodSlot.toJson d.methods),
    ("static_methods", .ofList MethodSlot.toJson d.staticMethods),
    ("attributes", .ofList AttributeSlot.toJson d.attributes)]

/-- Reads a layout record.  The members stay in the order of the document. -/
def decode : Decoder DispatchTable :=
  record ["struct_name", "parent", "constructor", "methods", "static_methods", "attributes"]
    fun budget cells =>
      match cells with
      | [structName, parent, constructor, methods, staticMethods, attributes] => do
        return ⟨← structName.required (Decoder.string budget),
          ← parent.nullable (Decoder.string budget), ← constructor.nullable (Decoder.string budget),
          ← methods.required (Decoder.list MethodSlot.decode budget),
          ← staticMethods.required (Decoder.list MethodSlot.decode budget),
          ← attributes.required (Decoder.list AttributeSlot.decode budget)⟩
      | _ => none

end DispatchTable

end StructLang
