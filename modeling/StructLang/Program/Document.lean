import StructLang.Program.Basic

/-!
# Program documents

The format in which programs are handed over.  Records follow the rules of `Json.Decoder`: an item,
a sentence, an expression and an action are variants, and every list of declarations may be left out
when it is empty.

The decoders recurse on the budget.  Every container takes one from it, so the limit on nesting is
also what bounds the recursion.
-/

namespace StructLang

open Json

/-! ## Writing -/

variable {α : Type}

mutual

/-- The expression as a variant. -/
def Expression.toJson : Expression α → Json
  | .access chain => .obj [("primary", chain.toJson)]
  | .unary operator operand _ =>
    .obj [("unary", .obj [("operator", operator.toJson), ("operand", operand.toJson)])]
  | .binary left operator right _ =>
    .obj [("binary", .obj [("left", left.toJson), ("operator", operator.toJson),
      ("right", right.toJson)])]

/-- The chain as the record of its first link. -/
def Chain.toJson : Chain α → Json
  | ⟨head, rest⟩ => head.toJson (Link.restToJson rest)

/-- The links after one, as the record of the next one. -/
def Link.restToJson : List (Link α) → Json
  | [] => .null
  | link :: rest => link.toJson (Link.restToJson rest)

/-- The link as a record, given the rest of the chain. -/
def Link.toJson (rest : Json) : Link α → Json
  | ⟨token, action, _⟩ =>
    .obj [("token", token.toJson), ("kind", action.toJson), ("chain", rest)]

/-- The action as a variant. -/
def Action.toJson : Action α → Json
  | .simple => .str "simple_access"
  | .call args => .obj [("method_call", .obj [("args", .arr (Expression.allToJson args))])]
  | .index position => .obj [("array_access", .obj [("index", position.toJson)])]
  | .newInstance args =>
    .obj [("create_instance", .obj [("args", .arr (Expression.allToJson args))])]
  | .newArray dimension => .obj [("create_array", .obj [("dimension", dimension.toJson)])]
  | .group inner => .obj [("parenthesized", .obj [("expression", inner.toJson)])]

/-- Every expression as a variant. -/
def Expression.allToJson : List (Expression α) → List Json
  | [] => []
  | e :: rest => e.toJson :: Expression.allToJson rest

end

mutual

/-- The sentence as a variant. -/
def Sentence.toJson : Sentence α → Json
  | .block sentences => .obj [("block", .obj [("sentences", .arr (Sentence.allToJson sentences))])]
  | .conditional token condition thenBranch elseBranch =>
    .obj [("conditional", .obj [("token", token.toJson), ("condition", condition.toJson),
      ("then_branch", thenBranch.toJson),
      ("else_branch", match elseBranch with
        | none => .null
        | some otherwise => otherwise.toJson)])]
  | .loop token condition body =>
    .obj [("loop", .obj [("token", token.toJson), ("condition", condition.toJson),
      ("body", body.toJson)])]
  | .assignment target token value =>
    .obj [("assignment", .obj [("target", target.toJson), ("token", token.toJson),
      ("value", value.toJson)])]
  | .giveBack token value =>
    .obj [("return", .obj [("token", token.toJson), ("value", .ofOption Expression.toJson value)])]
  | .expression e => .obj [("expression", e.toJson)]

/-- Every sentence as a variant. -/
def Sentence.allToJson : List (Sentence α) → List Json
  | [] => []
  | s :: rest => s.toJson :: Sentence.allToJson rest

end

/-- The block as a record. -/
def Block.toJson (b : Block α) : Json := .obj [("sentences", .arr (Sentence.allToJson b))]

/-- The typed name as a record. -/
def VarDef.toJson (d : VarDef) : Json := .obj [("name", d.name.toJson), ("ty", d.ty.toJson)]

/-- The attribute as a record. -/
def AttrDef.toJson (d : AttrDef) : Json :=
  .obj [("name", d.name.toJson), ("ty", d.ty.toJson), ("private", .bool d.isPrivate)]

/-- The struct item as a record. -/
def StructDef.toJson (d : StructDef) : Json :=
  .obj [("name", d.name.toJson), ("parent", .ofOption Token.toJson d.parent),
    ("attributes", .ofList AttrDef.toJson d.attributes)]

/-- The method as a record. -/
def MethodDef.toJson (d : MethodDef) : Json :=
  .obj [("name", d.name.toJson), ("kind", .str d.kind.name),
    ("params", .ofList VarDef.toJson d.params),
    ("return_type", .ofOption Token.toJson d.returnType),
    ("locals", .ofList VarDef.toJson d.locals), ("body", Block.toJson d.body)]

/-- The impl block as a record. -/
def ImplDef.toJson (d : ImplDef) : Json :=
  .obj [("name", d.name.toJson), ("methods", .ofList MethodDef.toJson d.methods)]

/-- The start item as a record. -/
def StartDef.toJson (d : StartDef) : Json :=
  .obj [("token", d.token.toJson), ("locals", .ofList VarDef.toJson d.locals),
    ("body", Block.toJson d.body)]

/-- The item as a variant. -/
def Item.toJson : Item → Json
  | .struct d => .obj [("struct", d.toJson)]
  | .impl d => .obj [("impl", d.toJson)]
  | .start d => .obj [("start", d.toJson)]

/-- The program as a record. -/
def Program.toJson (p : Program) : Json := .obj [("items", .ofList Item.toJson p.items)]

/-! ## Reading expressions -/

mutual

/-- Reads an expression. -/
def Expression.decode : Decoder (Expression Unit)
  | 0, _ => none
  | budget + 1, v =>
    match v.variant? with
    | some ("primary", v) => (Chain.decode budget v).map .access
    | some ("unary", v) => Expression.decodeUnary budget v
    | some ("binary", v) => Expression.decodeBinary budget v
    | _ => none

/-- Reads the contents of a unary expression. -/
def Expression.decodeUnary : Decoder (Expression Unit)
  | 0, _ => none
  | budget + 1, v =>
    match v.fields ["operator", "operand"] with
    | some [operator, operand] => do
      let operator ← operator.required (Token.decode budget)
      let operand ← operand.required (Chain.decode budget)
      return .unary operator operand ()
    | _ => none

/-- Reads the contents of a binary expression. -/
def Expression.decodeBinary : Decoder (Expression Unit)
  | 0, _ => none
  | budget + 1, v =>
    match v.fields ["left", "operator", "right"] with
    | some [left, operator, right] => do
      let left ← left.required (Expression.decode budget)
      let operator ← operator.required (Token.decode budget)
      let right ← right.required (Expression.decode budget)
      return .binary left operator right ()
    | _ => none

/-- Reads a chain, which is a record of its first link with the rest of the chain in it. -/
def Chain.decode : Decoder (Chain Unit)
  | 0, _ => none
  | budget + 1, v =>
    match v.fields ["token", "kind", "chain"] with
    | some [token, kind, chain] => do
      let token ← token.required (Token.decode budget)
      let action ← kind.withDefault .simple (Action.decode budget)
      let next ← chain.withDefault none (orNull (Chain.decode budget))
      let rest := match next with
        | none => []
        | some chain => chain.head :: chain.rest
      return ⟨⟨token, action, ()⟩, rest⟩
    | _ => none

/-- Reads an action. -/
def Action.decode : Decoder (Action Unit)
  | _, .str "simple_access" => some .simple
  | 0, _ => none
  | budget + 1, v =>
    match v.variant? with
    | some ("simple_access", .null) => some .simple
    | some ("method_call", v) => (Expression.decodeArguments budget v).map .call
    | some ("array_access", v) => (Expression.decodeField "index" budget v).map .index
    | some ("create_instance", v) => (Expression.decodeArguments budget v).map .newInstance
    | some ("create_array", v) => (Expression.decodeField "dimension" budget v).map .newArray
    | some ("parenthesized", v) => (Expression.decodeField "expression" budget v).map .group
    | _ => none

/-- Reads a record with one field that holds an expression. -/
def Expression.decodeField (name : String) : Decoder (Expression Unit)
  | 0, _ => none
  | budget + 1, v =>
    match v.fields [name] with
    | some [inner] => inner.required (Expression.decode budget)
    | _ => none

/-- Reads a record with the arguments of a call. -/
def Expression.decodeArguments : Decoder (List (Expression Unit))
  | 0, _ => none
  | budget + 1, v =>
    match v.fields ["args"] with
    | some [args] => args.required (Expression.decodeList budget)
    | _ => none

/-- Reads an array of expressions. -/
def Expression.decodeList : Decoder (List (Expression Unit))
  | budget + 1, .arr items => items.mapM (Expression.decode budget)
  | _, _ => none

end

/-! ## Reading sentences -/

mutual

/-- Reads a sentence. -/
def Sentence.decode : Decoder (Sentence Unit)
  | 0, _ => none
  | budget + 1, v =>
    match v.variant? with
    | some ("block", v) => (Block.decode budget v).map .block
    | some ("conditional", v) => Sentence.decodeConditional budget v
    | some ("loop", v) => Sentence.decodeLoop budget v
    | some ("assignment", v) => Sentence.decodeAssignment budget v
    | some ("return", v) => Sentence.decodeReturn budget v
    | some ("expression", v) => (Expression.decode budget v).map .expression
    | _ => none

/-- Reads the contents of a conditional. -/
def Sentence.decodeConditional : Decoder (Sentence Unit)
  | 0, _ => none
  | budget + 1, v =>
    match v.fields ["token", "condition", "then_branch", "else_branch"] with
    | some [token, condition, thenBranch, elseBranch] => do
      let token ← token.required (Token.decode budget)
      let condition ← condition.required (Expression.decode budget)
      let thenBranch ← thenBranch.required (Sentence.decode budget)
      let elseBranch ← elseBranch.withDefault none (orNull (Sentence.decode budget))
      return .conditional token condition thenBranch elseBranch
    | _ => none

/-- Reads the contents of a loop. -/
def Sentence.decodeLoop : Decoder (Sentence Unit)
  | 0, _ => none
  | budget + 1, v =>
    match v.fields ["token", "condition", "body"] with
    | some [token, condition, body] => do
      let token ← token.required (Token.decode budget)
      let condition ← condition.required (Expression.decode budget)
      let body ← body.required (Sentence.decode budget)
      return .loop token condition body
    | _ => none

/-- Reads the contents of an assignment. -/
def Sentence.decodeAssignment : Decoder (Sentence Unit)
  | 0, _ => none
  | budget + 1, v =>
    match v.fields ["target", "token", "value"] with
    | some [target, token, value] => do
      let target ← target.required (Chain.decode budget)
      let token ← token.required (Token.decode budget)
      let value ← value.required (Expression.decode budget)
      return .assignment target token value
    | _ => none

/-- Reads the contents of a return sentence. -/
def Sentence.decodeReturn : Decoder (Sentence Unit)
  | 0, _ => none
  | budget + 1, v =>
    match v.fields ["token", "value"] with
    | some [token, value] => do
      let token ← token.required (Token.decode budget)
      let value ← value.withDefault none (orNull (Expression.decode budget))
      return .giveBack token value
    | _ => none

/-- Reads a block record. -/
def Block.decode : Decoder (Block Unit)
  | 0, _ => none
  | budget + 1, v =>
    match v.fields ["sentences"] with
    | some [sentences] => sentences.required (Block.decodeList budget)
    | _ => none

/-- Reads an array of sentences. -/
def Block.decodeList : Decoder (Block Unit)
  | budget + 1, .arr items => items.mapM (Sentence.decode budget)
  | _, _ => none

end

/-! ## Reading items -/

/-- Reads a typed name. -/
def VarDef.decode : Decoder VarDef :=
  record ["name", "ty"] fun budget cells =>
    match cells with
    | [name, ty] => do
      return ⟨← name.required (Token.decode budget), ← ty.required (Token.decode budget)⟩
    | _ => none

/-- Reads an attribute, which is not private unless it says so. -/
def AttrDef.decode : Decoder AttrDef :=
  record ["name", "ty", "private"] fun budget cells =>
    match cells with
    | [name, ty, isPrivate] => do
      return ⟨← name.required (Token.decode budget), ← ty.required (Token.decode budget),
        ← isPrivate.withDefault false (Decoder.bool budget)⟩
    | _ => none

/-- Reads a struct item. -/
def StructDef.decode : Decoder StructDef :=
  record ["name", "parent", "attributes"] fun budget cells =>
    match cells with
    | [name, parent, attributes] => do
      return ⟨← name.required (Token.decode budget),
        ← parent.withDefault none (orNull (Token.decode budget)),
        ← attributes.withDefault [] (Decoder.list AttrDef.decode budget)⟩
    | _ => none

/-- Reads a method, which takes an instance unless it says otherwise. -/
def MethodDef.decode : Decoder MethodDef :=
  record ["name", "kind", "params", "return_type", "locals", "body"] fun budget cells =>
    match cells with
    | [name, kind, params, returnType, locals, body] => do
      return ⟨← name.required (Token.decode budget),
        ← kind.withDefault .onInstance (MethodKind.decode budget),
        ← params.withDefault [] (Decoder.list VarDef.decode budget),
        ← returnType.withDefault none (orNull (Token.decode budget)),
        ← locals.withDefault [] (Decoder.list VarDef.decode budget),
        ← body.withDefault [] (Block.decode budget)⟩
    | _ => none

/-- Reads an impl block. -/
def ImplDef.decode : Decoder ImplDef :=
  record ["name", "methods"] fun budget cells =>
    match cells with
    | [name, methods] => do
      return ⟨← name.required (Token.decode budget),
        ← methods.withDefault [] (Decoder.list MethodDef.decode budget)⟩
    | _ => none

/-- Reads a start item. -/
def StartDef.decode : Decoder StartDef :=
  record ["token", "locals", "body"] fun budget cells =>
    match cells with
    | [token, locals, body] => do
      return ⟨← token.required (Token.decode budget),
        ← locals.withDefault [] (Decoder.list VarDef.decode budget),
        ← body.withDefault [] (Block.decode budget)⟩
    | _ => none

/-- Reads an item. -/
def Item.decode : Decoder Item
  | 0, _ => none
  | budget + 1, v =>
    match v.variant? with
    | some ("struct", v) => (StructDef.decode budget v).map .struct
    | some ("impl", v) => (ImplDef.decode budget v).map .impl
    | some ("start", v) => (StartDef.decode budget v).map .start
    | _ => none

/-- Reads a program. -/
def Program.decode : Decoder Program :=
  record ["items"] fun budget cells =>
    match cells with
    | [items] => do return ⟨← items.required (Decoder.list Item.decode budget)⟩
    | _ => none

/-- The program that a text holds. -/
def Program.parse? (text : String) : Option Program := decodeText Program.decode text

end StructLang
