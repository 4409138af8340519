import StructLang.Struct.Basic

/-!
# Built-in structs

Every symbol table starts with the root of the inheritance tree, the struct of static input and
output methods, and a struct for every primitive type and for every type of arrays.  Their names are
reserved, and no struct but the root may be a parent.
-/

namespace StructLang.Builtin

/-- The name of the root of the inheritance tree. -/
def root : String := "Object"

/-- The name of the struct of input and output methods. -/
def inputOutput : String := "IO"

/-- Names that no declaration may use. -/
def isReserved (name : String) : Bool :=
  name == root || name == inputOutput || name == "Array"
    || Primitive.all.any fun p => p.name == name || p.arrayName == name

/-- Names that no struct may have as its parent. -/
def isSealed (name : String) : Bool := name != root && isReserved name

/-- The signature of a built-in method. -/
structure Signature where
  name : String
  kind : MethodKind
  params : List (String × Ty)
  returnType : Ty

/-- A static method that writes a value. -/
def output (name : String) (ty : Ty) : Signature := ⟨name, .static, [("value", ty)], .void⟩

/-- A static method that reads a value. -/
def input (name : String) (ty : Ty) : Signature := ⟨name, .static, [], ty⟩

/-- The methods for input and output. -/
def inputOutputMethods : List Signature :=
  [output "out_str" (.prim .str), output "out_int" (.prim .int), output "out_bool" (.prim .bool),
   output "out_char" (.prim .char), output "out_array_int" (.array .int),
   output "out_array_str" (.array .str), output "out_array_bool" (.array .bool),
   output "out_array_char" (.array .char), input "in_str" (.prim .str), input "in_int" (.prim .int),
   input "in_bool" (.prim .bool), input "in_char" (.prim .char)]

/-- The methods of the values of a primitive type. -/
def primitiveMethods : Primitive → List Signature
  | .str =>
    [⟨"length", .onInstance, [], .prim .int⟩,
     ⟨"concat", .onInstance, [("other", .prim .str)], .prim .str⟩]
  | .int | .char | .bool => []

/-- The methods of arrays. -/
def arrayMethods : List Signature := [⟨"length", .onInstance, [], .prim .int⟩]

/-- The kind of the token that names a primitive type. -/
def primitiveKind : Primitive → TokenKind
  | .int => .intType
  | .str => .strType
  | .char => .charType
  | .bool => .boolType

/-- The method with a signature, in a built-in struct and at a slot. -/
def method (owner : String) (s : Signature) (slot : Nat) : Method where
  token := .builtin .objectId s.name
  owner := some owner
  kind := s.kind
  params := s.params.map fun (name, ty) => ⟨.builtin .objectId name, ty⟩
  returnType := s.returnType
  slot := slot
  locals := []

/-- A built-in struct, which is final from the start. -/
def struct (kind : TokenKind) (name : String) (parent : Option String)
    (methods : List Signature) : Struct :=
  { Struct.declare (.builtin kind name) parent with
    methods := .ofList (methods.zipIdx.map fun (s, slot) => (s.name, method name s slot))
    nextMethodSlot := methods.length
    consolidated := true
    builtin := true }

/-- The built-in structs under the root. -/
def underRoot : List Struct :=
  struct .structId inputOutput (some root) inputOutputMethods ::
    Primitive.all.flatMap fun p =>
      [struct (primitiveKind p) p.name (some root) (primitiveMethods p),
       struct .arrayType p.arrayName (some root) arrayMethods]

/-- The root of the inheritance tree. -/
def rootStruct : Struct :=
  { struct .structId root none [] with children := .ofList (underRoot.map (·.name)) }

/-- Every built-in struct. -/
def structs : NameMap Struct :=
  .ofList ((rootStruct :: underRoot).map fun s => (s.name, s))

end StructLang.Builtin
