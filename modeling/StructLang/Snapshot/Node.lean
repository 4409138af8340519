import StructLang.Analysis
import StructLang.Json.Writer

/-!
# Snapshots of bodies

The checked bodies of a program as a document.  Every sentence, expression and link becomes a node
with a name, the token it is anchored at and the type that was found for it.
-/

namespace StructLang

open Json

/-- A node of a body.  What is absent is left out of the document. -/
structure NodeSnapshot where
  node : String
  token : Option String
  position : Option Position
  resultType : Option String
  children : List NodeSnapshot

/-- A body in a snapshot. -/
structure BodySnapshot where
  owner : Option String
  method : String
  kind : MethodKind
  body : NodeSnapshot

/-- The bodies of a program as a document. -/
structure AstSnapshot where
  bodies : List BodySnapshot

/-! ## Taking snapshots -/

namespace NodeSnapshot

/-- A node without a token. -/
def plain (node : String) (children : List NodeSnapshot) : NodeSnapshot :=
  ⟨node, none, none, none, children⟩

/-- A node at a token. -/
def anchored (node : String) (token : Token) (children : List NodeSnapshot) : NodeSnapshot :=
  ⟨node, some token.lexeme, some token.position, none, children⟩

/-- A node at a token, with a result. -/
def typed (node : String) (token : Token) (result : Option Ty) (children : List NodeSnapshot) :
    NodeSnapshot :=
  ⟨node, some token.lexeme, some token.position, result.map Ty.text, children⟩

variable {α : Type} (type : α → Option Ty)

mutual

/-- The node of an expression. -/
def ofExpression : Expression α → NodeSnapshot
  | .access chain => ofChain chain
  | .unary operator operand result => typed "unary" operator (type result) [ofChain operand]
  | .binary left operator right result =>
    typed "binary" operator (type result) [ofExpression left, ofExpression right]

/-- The node of a chain, which is the node of its first link. -/
def ofChain : Chain α → NodeSnapshot
  | ⟨head, rest⟩ => ofLink (ofRest rest) head

/-- The nodes of the links after one: none, or the next link with all others under it. -/
def ofRest : List (Link α) → List NodeSnapshot
  | [] => []
  | link :: rest => [ofLink (ofRest rest) link]

/-- The node of a link, given the nodes of the rest of the chain. -/
def ofLink (rest : List NodeSnapshot) : Link α → NodeSnapshot
  | ⟨token, action, result⟩ => typed action.name token (type result) (ofAction action ++ rest)

/-- The nodes of what a link works on. -/
def ofAction : Action α → List NodeSnapshot
  | .simple => []
  | .call args => ofExpressions args
  | .index position => [ofExpression position]
  | .newInstance args => ofExpressions args
  | .newArray dimension => [ofExpression dimension]
  | .group inner => [ofExpression inner]

/-- The nodes of expressions. -/
def ofExpressions : List (Expression α) → List NodeSnapshot
  | [] => []
  | e :: rest => ofExpression e :: ofExpressions rest

end

mutual

/-- The node of a sentence. -/
def ofSentence : Sentence α → NodeSnapshot
  | .block sentences => plain "block" (ofSentences sentences)
  | .conditional token condition thenBranch elseBranch =>
    anchored "conditional" token
      (ofExpression type condition :: ofSentence thenBranch ::
        match elseBranch with
        | none => []
        | some otherwise => [ofSentence otherwise])
  | .loop token condition body =>
    anchored "loop" token [ofExpression type condition, ofSentence body]
  | .assignment target token value =>
    anchored "assignment" token [ofChain type target, ofExpression type value]
  | .giveBack token value => anchored "return" token (value.toList.map (ofExpression type))
  | .expression e => plain "expression_sentence" [ofExpression type e]

/-- The nodes of sentences. -/
def ofSentences : List (Sentence α) → List NodeSnapshot
  | [] => []
  | s :: rest => ofSentence s :: ofSentences rest

end

/-- The node of a body. -/
def ofBlock (b : Block α) : NodeSnapshot := plain "block" (ofSentences type b)

end NodeSnapshot

/-- The snapshot of a checked body. -/
def BodySnapshot.ofBody (b : Body (Option Ty)) : BodySnapshot :=
  ⟨b.owner, b.token.lexeme, b.kind, .ofBlock id b.block⟩

/-- The snapshot of checked bodies, in source order. -/
def AstSnapshot.ofBodies (bodies : List (Body (Option Ty))) : AstSnapshot := ⟨bodies.map .ofBody⟩

/-! ## Writing -/

/-- The members of an object that are there. -/
def presentMembers (members : List (String × Option Json)) : List (String × Json) :=
  members.filterMap fun (key, v) => v.map fun v => (key, v)

mutual

/-- The node as a record. -/
def NodeSnapshot.toJson : NodeSnapshot → Json
  | ⟨node, token, position, resultType, children⟩ =>
    .obj (presentMembers [("node", some (.str node)), ("token", token.map .str),
      ("position", position.map Position.toJson), ("result_type", resultType.map .str),
      ("children", if children.isEmpty then none else some (.arr (NodeSnapshot.allToJson children)))])

/-- Every node as a record. -/
def NodeSnapshot.allToJson : List NodeSnapshot → List Json
  | [] => []
  | n :: rest => n.toJson :: NodeSnapshot.allToJson rest

end

/-- The body as a record. -/
def BodySnapshot.toJson (b : BodySnapshot) : Json :=
  .obj [("owner", .ofOption .str b.owner), ("method", .str b.method), ("kind", .str b.kind.name),
    ("body", b.body.toJson)]

/-- The bodies as a record. -/
def AstSnapshot.toJson (a : AstSnapshot) : Json :=
  .obj [("bodies", .ofList BodySnapshot.toJson a.bodies)]

/-- The document of a snapshot of bodies. -/
def AstSnapshot.text (a : AstSnapshot) : String := a.toJson.pretty

/-! ## Reading -/

mutual

/-- Reads a node. -/
def NodeSnapshot.decode : Decoder NodeSnapshot
  | 0, _ => none
  | budget + 1, v =>
    match v.fields ["node", "token", "position", "result_type", "children"] with
    | some [node, token, position, resultType, children] => do
      return ⟨← node.required (Decoder.string budget),
        ← token.withDefault none (orNull (Decoder.string budget)),
        ← position.withDefault none (orNull (Position.decode budget)),
        ← resultType.withDefault none (orNull (Decoder.string budget)),
        ← children.withDefault [] (NodeSnapshot.decodeList budget)⟩
    | _ => none

/-- Reads an array of nodes. -/
def NodeSnapshot.decodeList : Decoder (List NodeSnapshot)
  | budget + 1, .arr items => items.mapM (NodeSnapshot.decode budget)
  | _, _ => none

end

/-- Reads a body. -/
def BodySnapshot.decode : Decoder BodySnapshot :=
  record ["owner", "method", "kind", "body"] fun budget cells =>
    match cells with
    | [owner, method, kind, body] => do
      return ⟨← owner.nullable (Decoder.string budget), ← method.required (Decoder.string budget),
        ← kind.required (MethodKind.decode budget), ← body.required (NodeSnapshot.decode budget)⟩
    | _ => none

/-- Reads a snapshot of bodies. -/
def AstSnapshot.decode : Decoder AstSnapshot :=
  record ["bodies"] fun budget cells =>
    match cells with
    | [bodies] => do return ⟨← bodies.required (Decoder.list BodySnapshot.decode budget)⟩
    | _ => none

/-- The snapshot of bodies that a text holds. -/
def AstSnapshot.parse? (text : String) : Option AstSnapshot := decodeText AstSnapshot.decode text

end StructLang
