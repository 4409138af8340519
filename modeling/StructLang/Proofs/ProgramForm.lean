import StructLang.Proofs.Nesting
import StructLang.Proofs.RecordForm
import StructLang.Proofs.TableSnapshot

/-!
# The documents of a program

`Program.Written p` holds of every document of a program in which all records are objects: the keys
of every object may stand in any order, and a field that has a default may be left out where it holds
the default.  The document with all fields, which `toJson` gives, is one of them.
-/

namespace StructLang

open Json

/-! ## Tokens -/

/-- The documents of a token. -/
def Token.Written (t : Token) : Json → Prop :=
  ObjectOf [.always "kind" (· = .str t.kind.name), .always "lexeme" (· = .str t.lexeme),
    .always "line" (· = .nat t.line.toNat), .always "column" (· = .nat t.column.toNat)]

/-! ## Expressions -/

mutual

/-- The documents of an expression. -/
def Expression.Written : Expression Unit → Json → Prop
  | .access chain => VariantOf "primary" chain.Written
  | .unary operator operand _ =>
    VariantOf "unary" (ObjectOf [.always "operator" operator.Written,
      .always "operand" operand.Written])
  | .binary left operator right _ =>
    VariantOf "binary" (ObjectOf [.always "left" left.Written,
      .always "operator" operator.Written, .always "right" right.Written])

/-- The documents of a chain. -/
def Chain.Written : Chain Unit → Json → Prop
  | ⟨head, rest⟩ => head.Written (Link.RestWritten rest) (rest = [])

/-- The documents of the links after one. -/
def Link.RestWritten : List (Link Unit) → Json → Prop
  | [] => (· = .null)
  | link :: rest => link.Written (Link.RestWritten rest) (rest = [])

/-- The documents of a link, given those of the rest of the chain and whether the link is the last
one. -/
def Link.Written (rest : Json → Prop) (last : Prop) : Link Unit → Json → Prop
  | ⟨token, action, _⟩ =>
    ObjectOf [.always "token" token.Written, ⟨"kind", action.Written, action = .simple⟩,
      ⟨"chain", rest, last⟩]

/-- The documents of an action. -/
def Action.Written : Action Unit → Json → Prop
  | .simple => (· = .str "simple_access")
  | .call args =>
    VariantOf "method_call" (ObjectOf [.always "args" (ArrayOf (Expression.AllWritten args))])
  | .index position =>
    VariantOf "array_access" (ObjectOf [.always "index" position.Written])
  | .newInstance args =>
    VariantOf "create_instance" (ObjectOf [.always "args" (ArrayOf (Expression.AllWritten args))])
  | .newArray dimension =>
    VariantOf "create_array" (ObjectOf [.always "dimension" dimension.Written])
  | .group inner =>
    VariantOf "parenthesized" (ObjectOf [.always "expression" inner.Written])

/-- The lists of documents of expressions. -/
def Expression.AllWritten : List (Expression Unit) → List Json → Prop
  | [] => (· = [])
  | e :: rest => fun items =>
    ∃ first others, e.Written first ∧ Expression.AllWritten rest others ∧ items = first :: others

end

/-! ## Sentences -/

mutual

/-- The documents of a sentence. -/
def Sentence.Written : Sentence Unit → Json → Prop
  | .block sentences =>
    VariantOf "block"
      (ObjectOf [.always "sentences" (ArrayOf (Sentence.AllWritten sentences))])
  | .conditional token condition thenBranch elseBranch =>
    VariantOf "conditional" (ObjectOf [.always "token" token.Written,
      .always "condition" condition.Written, .always "then_branch" thenBranch.Written,
      ⟨"else_branch", match elseBranch with
        | none => (· = .null)
        | some otherwise => otherwise.Written, elseBranch = none⟩])
  | .loop token condition body =>
    VariantOf "loop" (ObjectOf [.always "token" token.Written,
      .always "condition" condition.Written, .always "body" body.Written])
  | .assignment target token value =>
    VariantOf "assignment" (ObjectOf [.always "target" target.Written,
      .always "token" token.Written, .always "value" value.Written])
  | .giveBack token value =>
    VariantOf "return" (ObjectOf [.always "token" token.Written,
      ⟨"value", OrNull Expression.Written value, value = none⟩])
  | .expression e => VariantOf "expression" e.Written

/-- The lists of documents of sentences. -/
def Sentence.AllWritten : List (Sentence Unit) → List Json → Prop
  | [] => (· = [])
  | s :: rest => fun items =>
    ∃ first others, s.Written first ∧ Sentence.AllWritten rest others ∧ items = first :: others

end

/-- The documents of a block. -/
def Block.Written (b : Block Unit) : Json → Prop :=
  ObjectOf [.always "sentences" (ArrayOf (Sentence.AllWritten b))]

/-! ## Items -/

/-- The documents of a typed name. -/
def VarDef.Written (d : VarDef) : Json → Prop :=
  ObjectOf [.always "name" d.name.Written, .always "ty" d.ty.Written]

/-- The documents of an attribute. -/
def AttrDef.Written (d : AttrDef) : Json → Prop :=
  ObjectOf [.always "name" d.name.Written, .always "ty" d.ty.Written,
    ⟨"private", (· = .bool d.isPrivate), d.isPrivate = false⟩]

/-- The documents of a struct item. -/
def StructDef.Written (d : StructDef) : Json → Prop :=
  ObjectOf [.always "name" d.name.Written,
    ⟨"parent", OrNull Token.Written d.parent, d.parent = none⟩,
    ⟨"attributes", ArrayOf (List.Forall₂ AttrDef.Written d.attributes), d.attributes = []⟩]

/-- The documents of a method. -/
def MethodDef.Written (d : MethodDef) : Json → Prop :=
  ObjectOf [.always "name" d.name.Written,
    ⟨"kind", (· = .str d.kind.name), d.kind = .onInstance⟩,
    ⟨"params", ArrayOf (List.Forall₂ VarDef.Written d.params), d.params = []⟩,
    ⟨"return_type", OrNull Token.Written d.returnType, d.returnType = none⟩,
    ⟨"locals", ArrayOf (List.Forall₂ VarDef.Written d.locals), d.locals = []⟩,
    ⟨"body", Block.Written d.body, d.body = []⟩]

/-- The documents of an impl block. -/
def ImplDef.Written (d : ImplDef) : Json → Prop :=
  ObjectOf [.always "name" d.name.Written,
    ⟨"methods", ArrayOf (List.Forall₂ MethodDef.Written d.methods), d.methods = []⟩]

/-- The documents of a start item. -/
def StartDef.Written (d : StartDef) : Json → Prop :=
  ObjectOf [.always "token" d.token.Written,
    ⟨"locals", ArrayOf (List.Forall₂ VarDef.Written d.locals), d.locals = []⟩,
    ⟨"body", Block.Written d.body, d.body = []⟩]

/-- The documents of an item. -/
def Item.Written : Item → Json → Prop
  | .struct d => VariantOf "struct" d.Written
  | .impl d => VariantOf "impl" d.Written
  | .start d => VariantOf "start" d.Written

/-- The documents of a program. -/
def Program.Written (p : Program) : Json → Prop :=
  ObjectOf [.always "items" (ArrayOf (List.Forall₂ Item.Written p.items))]

/-! ## The document with all fields -/

open Members

theorem Token.written_toJson (t : Token) : t.Written t.toJson :=
  (written rfl (written rfl (written rfl (written rfl nil)))).objectOf

mutual

theorem Expression.written_toJson : ∀ e : Expression Unit, e.Written e.toJson
  | .access chain => ⟨_, Chain.written_toJson chain, rfl⟩
  | .unary operator operand _ =>
    ⟨_, (written operator.written_toJson (written (Chain.written_toJson operand) nil)).objectOf, rfl⟩
  | .binary left operator right _ =>
    ⟨_, (written (Expression.written_toJson left) (written operator.written_toJson
      (written (Expression.written_toJson right) nil))).objectOf, rfl⟩

theorem Chain.written_toJson : ∀ chain : Chain Unit, chain.Written chain.toJson
  | ⟨head, rest⟩ => Link.written_toJson (Link.restWritten_restToJson rest) head

theorem Link.restWritten_restToJson : ∀ links : List (Link Unit),
    Link.RestWritten links (Link.restToJson links)
  | [] => rfl
  | link :: rest => Link.written_toJson (Link.restWritten_restToJson rest) link

theorem Link.written_toJson {rest : Json → Prop} {last : Prop} {v : Json} (hrest : rest v) :
    ∀ link : Link Unit, link.Written rest last (link.toJson v)
  | ⟨token, action, _⟩ =>
    (written token.written_toJson (written (Action.written_toJson action)
      (written hrest nil))).objectOf

theorem Action.written_toJson : ∀ action : Action Unit, action.Written action.toJson
  | .simple => rfl
  | .call args | .newInstance args =>
    ⟨_, (written (arrayOf_arr (Expression.allWritten_allToJson args)) nil).objectOf, rfl⟩
  | .index e | .newArray e | .group e =>
    ⟨_, (written (Expression.written_toJson e) nil).objectOf, rfl⟩

theorem Expression.allWritten_allToJson : ∀ es : List (Expression Unit),
    Expression.AllWritten es (Expression.allToJson es)
  | [] => rfl
  | e :: rest => ⟨_, _, Expression.written_toJson e, Expression.allWritten_allToJson rest, rfl⟩

end

theorem orNull_ofOption {α : Type} {form : α → Json → Prop} {encode : α → Json}
    (h : ∀ a, form a (encode a)) : ∀ o : Option α, OrNull form o (.ofOption encode o)
  | none => rfl
  | some a => h a

mutual

theorem Sentence.written_toJson : ∀ s : Sentence Unit, s.Written s.toJson
  | .block sentences =>
    ⟨_, (written (arrayOf_arr (Sentence.allWritten_allToJson sentences)) nil).objectOf, rfl⟩
  | .conditional token condition thenBranch none =>
    ⟨_, (written token.written_toJson (written condition.written_toJson
      (written (Sentence.written_toJson thenBranch) (written rfl nil)))).objectOf, rfl⟩
  | .conditional token condition thenBranch (some otherwise) =>
    ⟨_, (written token.written_toJson (written condition.written_toJson
      (written (Sentence.written_toJson thenBranch)
        (written (Sentence.written_toJson otherwise) nil)))).objectOf, rfl⟩
  | .loop token condition body =>
    ⟨_, (written token.written_toJson (written condition.written_toJson
      (written (Sentence.written_toJson body) nil))).objectOf, rfl⟩
  | .assignment target token value =>
    ⟨_, (written target.written_toJson (written token.written_toJson
      (written value.written_toJson nil))).objectOf, rfl⟩
  | .giveBack token value =>
    ⟨_, (written token.written_toJson
      (written (orNull_ofOption Expression.written_toJson value) nil)).objectOf, rfl⟩
  | .expression e => ⟨_, e.written_toJson, rfl⟩

theorem Sentence.allWritten_allToJson : ∀ ss : List (Sentence Unit),
    Sentence.AllWritten ss (Sentence.allToJson ss)
  | [] => rfl
  | s :: rest => ⟨_, _, Sentence.written_toJson s, Sentence.allWritten_allToJson rest, rfl⟩

end

theorem Block.written_toJson (b : Block Unit) : Block.Written b (Block.toJson b) :=
  (written (arrayOf_arr (Sentence.allWritten_allToJson b)) nil).objectOf

theorem arrayOf_ofList {α : Type} {form : α → Json → Prop} {encode : α → Json}
    (h : ∀ a, form a (encode a)) (as : List α) :
    ArrayOf (List.Forall₂ form as) (.ofList encode as) := by
  refine ⟨as.map encode, ?_, rfl⟩
  rw [List.forall₂_map_right_iff, List.forall₂_same]
  exact fun a _ => h a

theorem VarDef.written_toJson (d : VarDef) : d.Written d.toJson :=
  (written d.name.written_toJson (written d.ty.written_toJson nil)).objectOf

theorem AttrDef.written_toJson (d : AttrDef) : d.Written d.toJson :=
  (written d.name.written_toJson (written d.ty.written_toJson (written rfl nil))).objectOf

theorem StructDef.written_toJson (d : StructDef) : d.Written d.toJson :=
  (written d.name.written_toJson (written (orNull_ofOption Token.written_toJson d.parent)
    (written (arrayOf_ofList AttrDef.written_toJson d.attributes) nil))).objectOf

theorem MethodDef.written_toJson (d : MethodDef) : d.Written d.toJson :=
  (written d.name.written_toJson (written rfl
    (written (arrayOf_ofList VarDef.written_toJson d.params)
      (written (orNull_ofOption Token.written_toJson d.returnType)
        (written (arrayOf_ofList VarDef.written_toJson d.locals)
          (written (Block.written_toJson d.body) nil)))))).objectOf

theorem ImplDef.written_toJson (d : ImplDef) : d.Written d.toJson :=
  (written d.name.written_toJson
    (written (arrayOf_ofList MethodDef.written_toJson d.methods) nil)).objectOf

theorem StartDef.written_toJson (d : StartDef) : d.Written d.toJson :=
  (written d.token.written_toJson (written (arrayOf_ofList VarDef.written_toJson d.locals)
    (written (Block.written_toJson d.body) nil))).objectOf

theorem Item.written_toJson : ∀ item : Item, item.Written item.toJson
  | .struct d => ⟨_, d.written_toJson, rfl⟩
  | .impl d => ⟨_, d.written_toJson, rfl⟩
  | .start d => ⟨_, d.written_toJson, rfl⟩

/-- The document with all fields is a document of the program. -/
theorem Program.written_toJson (p : Program) : p.Written p.toJson :=
  (written (arrayOf_ofList Item.written_toJson p.items) nil).objectOf

end StructLang
