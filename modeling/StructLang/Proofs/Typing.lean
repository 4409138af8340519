import StructLang.Proofs.Storing
import StructLang.SymbolTable.Consolidate

/-!
# The typing judgement

A body is well typed when its expression nodes and links can be given types, or structs that stand
for themselves, such that every node follows its rule.  `Typed` says that a tree that carries such
an assignment follows the rules; it gives every node one rule and leaves out how the assignment is
found.

* The `infer_…_eq_ok` lemmas say when one node has types.
* Where an assignment follows the rules, its types are inferred (`Typed.infer_eq`).
* Where types are inferred, there is an assignment (`exists_typed`).
* Two assignments for one tree are equal (`Typed.unique`).

With what the checker stores (`Block.check_eq_of_infer`), it decides the judgement
(`Block.check_decides_typing`).
-/

namespace StructLang

variable {α β : Type}

/-! ## The rules -/

mutual

/-- The assignment that an expression carries follows the rules. -/
inductive Expression.Typed (c : Context) : Expression Receiver → Prop where
  | access {chain : Chain Receiver} (h : chain.Typed c) : Expression.Typed c (.access chain)
  | unary {operator : Token} {operand : Chain Receiver} {op : UnaryOperator} {ty : Ty}
      (hop : UnaryOperator.ofKind? operator.kind = some op) (hsimple : operand.isSimple = true)
      (h : operand.Typed c) (hgives : Context.UnaryGives op operand.result.ty ty) :
      Expression.Typed c (.unary operator operand (.value ty))
  | binary {left right : Expression Receiver} {operator : Token} {op : BinaryOperator} {ty : Ty}
      (hop : BinaryOperator.ofKind? operator.kind = some op) (hleft : left.Typed c)
      (hright : right.Typed c) (hgives : c.BinaryGives op left.result.ty right.result.ty ty) :
      Expression.Typed c (.binary left operator right (.value ty))

/-- The assignment that a chain carries follows the rules. -/
inductive Chain.Typed (c : Context) : Chain Receiver → Prop where
  | mk {head : Link Receiver} {rest : List (Link Receiver)} (hhead : head.Typed c none)
      (hrest : Link.RestTyped c head.result rest) : Chain.Typed c ⟨head, rest⟩

/-- The assignment to the links after one follows the rules, given what that one hands on.  The last
link of a chain has a value. -/
inductive Link.RestTyped (c : Context) : Receiver → List (Link Receiver) → Prop where
  | nil {ty : Ty} : Link.RestTyped c (.value ty) []
  | cons {receiver : Receiver} {link : Link Receiver} {rest : List (Link Receiver)}
      (h : link.Typed c (some receiver)) (hrest : Link.RestTyped c link.result rest) :
      Link.RestTyped c receiver (link :: rest)

/-- The assignment that a link carries follows the rules, given what the link before hands on. -/
inductive Link.Typed (c : Context) : Option Receiver → Link Receiver → Prop where
  | mk {receiver : Option Receiver} {token : Token} {action : Action Receiver} {result : Receiver}
      (h : action.Typed c receiver token result) : Link.Typed c receiver ⟨token, action, result⟩

/-- A link with this token and action, after what the receiver stands for, hands on a result. -/
inductive Action.Typed (c : Context) :
    Option Receiver → Token → Action Receiver → Receiver → Prop where
  | simple {receiver : Option Receiver} {token : Token} {result : Receiver}
      (h : c.Denotes receiver token result) : Action.Typed c receiver token .simple result
  | call {receiver : Option Receiver} {token : Token} {m : Method}
      {args : List (Expression Receiver)} (hm : c.Calls receiver token.lexeme m)
      (hargs : Expression.ArgsTyped c m.params args) :
      Action.Typed c receiver token (.call args) (.value m.returnType)
  | index {receiver : Option Receiver} {token : Token} {element : Primitive}
      {position : Expression Receiver}
      (hbase : c.Denotes receiver token (.value (.array element))) (h : position.Typed c)
      (hint : position.result.ty.isInt = true) :
      Action.Typed c receiver token (.index position) (.value (.prim element))
  | newInstance {token : Token} {params : List Binding} {args : List (Expression Receiver)}
      (hparams : c.Constructs token.lexeme params) (hargs : Expression.ArgsTyped c params args) :
      Action.Typed c none token (.newInstance args) (.value (.struct token.lexeme))
  | newArray {token : Token} {element : Primitive} {dimension : Expression Receiver}
      (helement : Primitive.ofName? token.lexeme = some element) (h : dimension.Typed c)
      (hint : dimension.result.ty.isInt = true) :
      Action.Typed c none token (.newArray dimension) (.value (.array element))
  | group {token : Token} {inner : Expression Receiver} (h : inner.Typed c) :
      Action.Typed c none token (.group inner) (.value inner.result.ty)

/-- There is one argument for every parameter, well typed and of a type that may be stored there. -/
inductive Expression.ArgsTyped (c : Context) :
    List Binding → List (Expression Receiver) → Prop where
  | nil : Expression.ArgsTyped c [] []
  | cons {param : Binding} {params : List Binding} {arg : Expression Receiver}
      {args : List (Expression Receiver)} (h : arg.Typed c)
      (hassignable : c.table.Assignable arg.result.ty param.ty)
      (hargs : Expression.ArgsTyped c params args) :
      Expression.ArgsTyped c (param :: params) (arg :: args)

end

/-- The assignment that a sentence carries follows the rules. -/
inductive Sentence.Typed (c : Context) : Sentence Receiver → Prop where
  | block {sentences : List (Sentence Receiver)} (h : ∀ s ∈ sentences, s.Typed c) :
      Sentence.Typed c (.block sentences)
  | conditional {token : Token} {condition : Expression Receiver} {thenBranch : Sentence Receiver}
      {elseBranch : Option (Sentence Receiver)} (h : condition.Typed c)
      (hbool : condition.result.ty.isBool = true) (hthen : thenBranch.Typed c)
      (helse : ∀ s ∈ elseBranch, s.Typed c) :
      Sentence.Typed c (.conditional token condition thenBranch elseBranch)
  | loop {token : Token} {condition : Expression Receiver} {body : Sentence Receiver}
      (h : condition.Typed c) (hbool : condition.result.ty.isBool = true) (hbody : body.Typed c) :
      Sentence.Typed c (.loop token condition body)
  | assignment {target : Chain Receiver} {token : Token} {value : Expression Receiver}
      (hlast : target.last.isAssignable = true) (htarget : target.Typed c) (hvalue : value.Typed c)
      (hassignable : c.table.Assignable value.result.ty target.result.ty) :
      Sentence.Typed c (.assignment target token value)
  | returnNothing {token : Token} (hvoid : c.method.returnType = .void) :
      Sentence.Typed c (.giveBack token none)
  | returnValue {token : Token} {value : Expression Receiver} (hvoid : c.method.returnType ≠ .void)
      (h : value.Typed c) (hassignable : c.table.Assignable value.result.ty c.method.returnType) :
      Sentence.Typed c (.giveBack token (some value))
  | expression {e : Expression Receiver} (h : e.Typed c) : Sentence.Typed c (.expression e)

/-- The assignment that a body carries follows the rules. -/
def Block.Typed (c : Context) (b : Block Receiver) : Prop := ∀ s ∈ b, s.Typed c

/-! ## What the checker accepts at one node -/

section Check

variable {c : Context} {receiver : Option Receiver} {token : Token} {result : Receiver}

namespace Expression

variable {e' : Expression Ty}

theorem infer_access_eq_ok {chain : Chain α} :
    (Expression.access chain).infer c = .ok e' ↔
      ∃ chain', chain.infer c = .ok chain' ∧ e' = .access chain' := by
  rw [infer, bind_eq_ok_iff]
  simp only [Pure.pure, Except.pure, Except.ok.injEq, eq_comm]

theorem infer_unary_eq_ok {operand : Chain α} {r : α} :
    (Expression.unary token operand r).infer c = .ok e' ↔
      ∃ op operand' ty, UnaryOperator.ofKind? token.kind = some op ∧ operand.isSimple = true ∧
        operand.infer c = .ok operand' ∧ Context.UnaryGives op operand'.result ty ∧
        e' = .unary token operand' ty := by
  rw [infer]
  cases UnaryOperator.ofKind? token.kind with
  | none => simp
  | some op =>
    dsimp only
    rw [Context.bind_require_eq_ok]
    simp only [bind_eq_ok_iff, Context.unaryType_eq_ok]
    constructor
    · rintro ⟨hsimple, operand', hoperand, ty, hty, heq⟩
      cases heq
      exact ⟨op, operand', ty, rfl, hsimple, hoperand, hty, rfl⟩
    · rintro ⟨_, operand', ty, ⟨⟩, hsimple, hoperand, hty, rfl⟩
      exact ⟨hsimple, operand', hoperand, ty, hty, rfl⟩

theorem infer_binary_eq_ok {left right : Expression α} {r : α} :
    (Expression.binary left token right r).infer c = .ok e' ↔
      ∃ op left' right' ty, BinaryOperator.ofKind? token.kind = some op ∧
        left.infer c = .ok left' ∧ right.infer c = .ok right' ∧
        c.BinaryGives op left'.result right'.result ty ∧
        e' = .binary left' token right' ty := by
  rw [infer]
  cases BinaryOperator.ofKind? token.kind with
  | none => simp
  | some op =>
    dsimp only
    simp only [bind_eq_ok_iff, Context.binaryType_eq_ok]
    constructor
    · rintro ⟨left', hleft, right', hright, ty, hty, heq⟩
      cases heq
      exact ⟨op, left', right', ty, rfl, hleft, hright, hty, rfl⟩
    · rintro ⟨_, left', right', ty, ⟨⟩, hleft, hright, hty, rfl⟩
      exact ⟨left', hleft, right', hright, ty, hty, rfl⟩

theorem inferArguments_cons_eq_ok {param : Binding} {params : List Binding} {arg : Expression α}
    {args : List (Expression α)} {args' : List (Expression Ty)} :
    inferArguments c (param :: params) (arg :: args) = .ok args' ↔
      ∃ arg' rest', arg.infer c = .ok arg' ∧ c.table.Assignable arg'.result param.ty ∧
        inferArguments c params args = .ok rest' ∧ args' = arg' :: rest' := by
  rw [inferArguments]
  simp only [bind_eq_ok_iff]
  constructor
  · rintro ⟨arg', harg, ⟨⟩, hassignable, rest', hrest, heq⟩
    cases heq
    exact ⟨arg', rest', harg, Context.requireAssignable_eq_ok.1 hassignable, hrest, rfl⟩
  · rintro ⟨arg', rest', harg, hassignable, hrest, rfl⟩
    exact ⟨arg', harg, (), Context.requireAssignable_eq_ok.2 hassignable, rest', hrest, rfl⟩

theorem inferCondition_eq_ok {e : Expression α} :
    e.inferCondition c = .ok e' ↔ e.infer c = .ok e' ∧ e'.result.isBool = true := by
  rw [inferCondition, bind_eq_ok_iff]
  simp only [Context.bind_require_eq_ok]
  constructor
  · rintro ⟨e'', he, hbool, heq⟩
    cases heq
    exact ⟨he, hbool⟩
  · rintro ⟨he, hbool⟩
    exact ⟨e', he, hbool, rfl⟩

end Expression

theorem Chain.infer_mk_eq_ok {head : Link α} {rest : List (Link α)} {chain' : Chain Ty} :
    (Chain.mk head rest).infer c = .ok chain' ↔
      ∃ head' result rest', head.infer c none = .ok (head', result) ∧
        Link.inferRest c head'.token result rest = .ok rest' ∧ chain' = ⟨head', rest'⟩ := by
  rw [infer, bind_eq_ok_iff]
  simp only [bind_eq_ok_iff]
  constructor
  · rintro ⟨⟨head', result⟩, hhead, rest', hrest, heq⟩
    cases heq
    exact ⟨head', result, rest', hhead, hrest, rfl⟩
  · rintro ⟨head', result, rest', hhead, hrest, rfl⟩
    exact ⟨(head', result), hhead, rest', hrest, rfl⟩

theorem Link.inferRest_nil_eq_ok {links' : List (Link Ty)} :
    Link.inferRest c token result ([] : List (Link α)) = .ok links' ↔
      ∃ ty, result = .value ty ∧ links' = [] := by
  cases result <;> simp [inferRest, eq_comm]

theorem Link.inferRest_cons_eq_ok {before : Receiver} {link : Link α} {rest : List (Link α)}
    {links' : List (Link Ty)} :
    Link.inferRest c token before (link :: rest) = .ok links' ↔
      ∃ link' result rest', link.infer c (some before) = .ok (link', result) ∧
        Link.inferRest c link'.token result rest = .ok rest' ∧ links' = link' :: rest' := by
  rw [inferRest, bind_eq_ok_iff]
  simp only [bind_eq_ok_iff]
  constructor
  · rintro ⟨⟨link', result⟩, hlink, rest', hrest, heq⟩
    cases heq
    exact ⟨link', result, rest', hlink, hrest, rfl⟩
  · rintro ⟨link', result, rest', hlink, hrest, rfl⟩
    exact ⟨(link', result), hlink, rest', hrest, rfl⟩

theorem Link.infer_mk_eq_ok {action : Action α} {r : α} {link' : Link Ty} :
    (Link.mk token action r).infer c receiver = .ok (link', result) ↔
      ∃ action', action.infer c receiver token = .ok (action', result) ∧
        link' = ⟨token, action', result.ty⟩ := by
  rw [infer, bind_eq_ok_iff]
  constructor
  · rintro ⟨⟨action', result'⟩, haction, heq⟩
    cases heq
    exact ⟨action', haction, rfl⟩
  · rintro ⟨action', haction, rfl⟩
    exact ⟨(action', result), haction, rfl⟩

namespace Action

variable {action' : Action Ty}

theorem infer_simple_eq_ok :
    (Action.simple : Action α).infer c receiver token = .ok (action', result) ↔
      c.Denotes receiver token result ∧ action' = .simple := by
  rw [infer, bind_eq_ok_iff]
  simp only [Context.access_eq_ok]
  constructor
  · rintro ⟨result, h, heq⟩
    cases heq
    exact ⟨h, rfl⟩
  · rintro ⟨h, rfl⟩
    exact ⟨result, h, rfl⟩

theorem infer_call_eq_ok {args : List (Expression α)} :
    (Action.call args).infer c receiver token = .ok (action', result) ↔
      ∃ m args', c.Calls receiver token.lexeme m ∧ m.params.length = args.length ∧
        Expression.inferArguments c m.params args = .ok args' ∧ action' = .call args' ∧
        result = .value m.returnType := by
  rw [infer, bind_eq_ok_iff]
  simp only [Context.calledMethod_eq_ok, bind_eq_ok_iff]
  constructor
  · rintro ⟨m, hm, ⟨⟩, harity, args', hargs, heq⟩
    cases heq
    exact ⟨m, args', hm, Context.requireArity_eq_ok.1 harity, hargs, rfl, rfl⟩
  · rintro ⟨m, args', hm, harity, hargs, rfl, rfl⟩
    exact ⟨m, hm, (), Context.requireArity_eq_ok.2 harity, args', hargs, rfl⟩

theorem infer_index_eq_ok {position : Expression α} :
    (Action.index position).infer c receiver token = .ok (action', result) ↔
      ∃ element position', c.Denotes receiver token (.value (.array element)) ∧
        position.infer c = .ok position' ∧ position'.result.isInt = true ∧
        action' = .index position' ∧ result = .value (.prim element) := by
  rw [infer, bind_eq_ok_iff]
  simp only [Context.access_eq_ok]
  constructor
  · rintro ⟨base, hbase, h⟩
    split at h
    · rename_i element harray
      obtain ⟨position', hposition, h⟩ := bind_eq_ok_iff.1 h
      obtain ⟨hint, h⟩ := Context.bind_require_eq_ok.1 h
      cases h
      cases base with
      | struct name => cases harray
      | value ty =>
        cases harray
        exact ⟨element, position', hbase, hposition, hint, rfl, rfl⟩
    · cases h
  · rintro ⟨element, position', hbase, hposition, hint, rfl, rfl⟩
    refine ⟨_, hbase, ?_⟩
    exact bind_eq_ok_iff.2 ⟨position', hposition, Context.bind_require_eq_ok.2 ⟨hint, rfl⟩⟩

theorem infer_newInstance_eq_ok {args : List (Expression α)} :
    (Action.newInstance args).infer c receiver token = .ok (action', result) ↔
      ∃ params args', receiver = none ∧ c.Constructs token.lexeme params ∧
        params.length = args.length ∧ Expression.inferArguments c params args = .ok args' ∧
        action' = .newInstance args' ∧ result = .value (.struct token.lexeme) := by
  rw [infer]
  simp only [bind_eq_ok_iff]
  constructor
  · rintro ⟨⟨⟩, hhead, s, hs, params, hparams, ⟨⟩, harity, args', hargs, heq⟩
    cases heq
    obtain ⟨hconstructs, hlength⟩ :=
      Context.exists_createdStruct_iff.1 ⟨s, hs, hparams, Context.requireArity_eq_ok.1 harity⟩
    exact ⟨params, args', Context.requireHead_eq_ok.1 hhead, hconstructs, hlength, hargs, rfl, rfl⟩
  · rintro ⟨params, args', hhead, hconstructs, hlength, hargs, rfl, rfl⟩
    obtain ⟨s, hs, hparams, harity⟩ := Context.exists_createdStruct_iff.2 ⟨hconstructs, hlength⟩
    exact ⟨(), Context.requireHead_eq_ok.2 hhead, s, hs, params, hparams, (),
      Context.requireArity_eq_ok.2 harity, args', hargs, rfl⟩

theorem infer_newArray_eq_ok {dimension : Expression α} :
    (Action.newArray dimension).infer c receiver token = .ok (action', result) ↔
      ∃ element dimension', receiver = none ∧ Primitive.ofName? token.lexeme = some element ∧
        dimension.infer c = .ok dimension' ∧ dimension'.result.isInt = true ∧
        action' = .newArray dimension' ∧ result = .value (.array element) := by
  rw [infer, bind_eq_ok_iff]
  constructor
  · rintro ⟨⟨⟩, hhead, h⟩
    split at h
    · cases h
    · rename_i element helement
      obtain ⟨dimension', hdimension, h⟩ := bind_eq_ok_iff.1 h
      obtain ⟨hint, h⟩ := Context.bind_require_eq_ok.1 h
      cases h
      exact ⟨element, dimension', Context.requireHead_eq_ok.1 hhead, helement, hdimension, hint,
        rfl, rfl⟩
  · rintro ⟨element, dimension', hhead, helement, hdimension, hint, rfl, rfl⟩
    refine ⟨(), Context.requireHead_eq_ok.2 hhead, ?_⟩
    rw [helement]
    exact bind_eq_ok_iff.2 ⟨dimension', hdimension, Context.bind_require_eq_ok.2 ⟨hint, rfl⟩⟩

theorem infer_group_eq_ok {inner : Expression α} :
    (Action.group inner).infer c receiver token = .ok (action', result) ↔
      ∃ inner', receiver = none ∧ inner.infer c = .ok inner' ∧ action' = .group inner' ∧
        result = .value inner'.result := by
  rw [infer]
  simp only [bind_eq_ok_iff]
  constructor
  · rintro ⟨⟨⟩, hhead, inner', hinner, heq⟩
    cases heq
    exact ⟨inner', Context.requireHead_eq_ok.1 hhead, hinner, rfl, rfl⟩
  · rintro ⟨inner', hhead, hinner, rfl, rfl⟩
    exact ⟨(), Context.requireHead_eq_ok.2 hhead, inner', hinner, rfl⟩

end Action

namespace Sentence

variable {s' : Sentence Ty}

theorem infer_block_eq_ok {sentences : List (Sentence α)} :
    (Sentence.block sentences).infer c = .ok s' ↔
      ∃ sentences', inferAll c sentences = .ok sentences' ∧ s' = .block sentences' := by
  rw [infer, bind_eq_ok_iff]
  simp only [Pure.pure, Except.pure, Except.ok.injEq, eq_comm]

theorem infer_conditional_eq_ok {condition : Expression α} {thenBranch : Sentence α}
    {elseBranch : Option (Sentence α)} :
    (Sentence.conditional token condition thenBranch elseBranch).infer c = .ok s' ↔
      ∃ condition' thenBranch', condition.infer c = .ok condition' ∧
        condition'.result.isBool = true ∧ thenBranch.infer c = .ok thenBranch' ∧
        (elseBranch = none ∧ s' = .conditional token condition' thenBranch' none ∨
          ∃ otherwise otherwise', elseBranch = some otherwise ∧
            otherwise.infer c = .ok otherwise' ∧
            s' = .conditional token condition' thenBranch' (some otherwise')) := by
  rw [infer, bind_eq_ok_iff]
  simp only [Expression.inferCondition_eq_ok, bind_eq_ok_iff]
  constructor
  · rintro ⟨condition', ⟨hcondition, hbool⟩, thenBranch', hthen, h⟩
    refine ⟨condition', thenBranch', hcondition, hbool, hthen, ?_⟩
    cases elseBranch with
    | none =>
      cases h
      exact .inl ⟨rfl, rfl⟩
    | some otherwise =>
      obtain ⟨otherwise', hotherwise, h⟩ := bind_eq_ok_iff.1 h
      cases h
      exact .inr ⟨otherwise, otherwise', rfl, hotherwise, rfl⟩
  · rintro ⟨condition', thenBranch', hcondition, hbool, hthen, h⟩
    refine ⟨condition', ⟨hcondition, hbool⟩, thenBranch', hthen, ?_⟩
    obtain ⟨rfl, rfl⟩ | ⟨otherwise, otherwise', rfl, hotherwise, rfl⟩ := h
    · rfl
    · exact bind_eq_ok_iff.2 ⟨otherwise', hotherwise, rfl⟩

theorem infer_loop_eq_ok {condition : Expression α} {body : Sentence α} :
    (Sentence.loop token condition body).infer c = .ok s' ↔
      ∃ condition' body', condition.infer c = .ok condition' ∧
        condition'.result.isBool = true ∧ body.infer c = .ok body' ∧
        s' = .loop token condition' body' := by
  rw [infer, bind_eq_ok_iff]
  simp only [Expression.inferCondition_eq_ok, bind_eq_ok_iff]
  constructor
  · rintro ⟨condition', ⟨hcondition, hbool⟩, body', hbody, heq⟩
    cases heq
    exact ⟨condition', body', hcondition, hbool, hbody, rfl⟩
  · rintro ⟨condition', body', hcondition, hbool, hbody, rfl⟩
    exact ⟨condition', ⟨hcondition, hbool⟩, body', hbody, rfl⟩

theorem infer_assignment_eq_ok {target : Chain α} {value : Expression α} :
    (Sentence.assignment target token value).infer c = .ok s' ↔
      ∃ target' value', target.last.isAssignable = true ∧ target.infer c = .ok target' ∧
        value.infer c = .ok value' ∧ c.table.Assignable value'.result target'.result ∧
        s' = .assignment target' token value' := by
  rw [infer, inferAssignment]
  cases target.last.isAssignable with
  | false =>
    constructor
    · intro h
      cases h
    · rintro ⟨_, _, h, _⟩
      cases h
  | true =>
    show (target.infer c >>= _) = _ ↔ _
    simp only [bind_eq_ok_iff]
    constructor
    · rintro ⟨target', htarget, value', hvalue, ⟨⟩, hassignable, heq⟩
      cases heq
      exact ⟨target', value', trivial, htarget, hvalue,
        Context.requireAssignable_eq_ok.1 hassignable, rfl⟩
    · rintro ⟨target', value', _, htarget, hvalue, hassignable, rfl⟩
      exact ⟨target', htarget, value', hvalue, (),
        Context.requireAssignable_eq_ok.2 hassignable, rfl⟩

theorem infer_returnNothing_eq_ok :
    (Sentence.giveBack token none : Sentence α).infer c = .ok s' ↔
      c.method.returnType = .void ∧ s' = .giveBack token none := by
  rw [infer, inferReturn.eq_def]
  cases c.method.returnType <;> simp [eq_comm]

theorem infer_returnValue_eq_ok {value : Expression α} :
    (Sentence.giveBack token (some value)).infer c = .ok s' ↔
      ∃ value', c.method.returnType ≠ .void ∧ value.infer c = .ok value' ∧
        c.table.Assignable value'.result c.method.returnType ∧
        s' = .giveBack token (some value') := by
  rw [infer, inferReturn.eq_def]
  split
  · rename_i heq _
    cases heq
  · rename_i hvoid
    simp [hvoid]
  · rename_i heq _
    cases heq
  · rename_i heq hvoid
    cases heq
    simp only [bind_eq_ok_iff]
    constructor
    · rintro ⟨value', hvalue, ⟨⟩, hassignable, heq⟩
      cases heq
      exact ⟨value', hvoid, hvalue, Context.requireAssignable_eq_ok.1 hassignable, rfl⟩
    · rintro ⟨value', _, hvalue, hassignable, rfl⟩
      exact ⟨value', hvalue, (), Context.requireAssignable_eq_ok.2 hassignable, rfl⟩

theorem infer_expression_eq_ok {e : Expression α} :
    (Sentence.expression e).infer c = .ok s' ↔
      ∃ e', e.infer c = .ok e' ∧ s' = .expression e' := by
  rw [infer, bind_eq_ok_iff]
  simp only [Pure.pure, Except.pure, Except.ok.injEq, eq_comm]

theorem inferAll_cons_eq_ok {s : Sentence α} {rest : List (Sentence α)}
    {sentences' : List (Sentence Ty)} :
    inferAll c (s :: rest) = .ok sentences' ↔
      ∃ s' rest', s.infer c = .ok s' ∧ inferAll c rest = .ok rest' ∧ sentences' = s' :: rest' := by
  rw [inferAll]
  simp only [bind_eq_ok_iff]
  constructor
  · rintro ⟨s', hs, rest', hrest, heq⟩
    cases heq
    exact ⟨s', rest', hs, hrest, rfl⟩
  · rintro ⟨s', rest', hs, hrest, rfl⟩
    exact ⟨s', hs, rest', hrest, rfl⟩

end Sentence

end Check

/-! ## The checker finds every assignment -/

section Complete

variable {c : Context}

theorem Expression.ArgsTyped.length_eq {params : List Binding} {args : List (Expression Receiver)}
    (h : ArgsTyped c params args) : params.length = args.length := by
  induction args generalizing params with
  | nil => cases h; rfl
  | cons arg args ih =>
    cases h with
    | cons _ _ hargs => rw [List.length_cons, List.length_cons, ih hargs]

mutual

/-- The checker accepts an expression with an assignment that follows the rules, and stores its
types. -/
theorem Expression.Typed.infer_eq {a : Expression Receiver} (h : a.Typed c) :
    a.infer c = .ok (a.map Receiver.ty) := by
  cases h with
  | access h => exact Expression.infer_access_eq_ok.2 ⟨_, Chain.Typed.infer_eq h, rfl⟩
  | unary hop hsimple h hgives =>
    refine Expression.infer_unary_eq_ok.2 ⟨_, _, _, hop, hsimple, Chain.Typed.infer_eq h, ?_, rfl⟩
    rwa [Chain.result_map]
  | binary hop hleft hright hgives =>
    refine Expression.infer_binary_eq_ok.2 ⟨_, _, _, _, hop, Expression.Typed.infer_eq hleft,
      Expression.Typed.infer_eq hright, ?_, rfl⟩
    rwa [Expression.result_map, Expression.result_map]

theorem Chain.Typed.infer_eq {a : Chain Receiver} (h : a.Typed c) :
    a.infer c = .ok (a.map Receiver.ty) := by
  cases h with
  | mk hhead hrest =>
    exact Chain.infer_mk_eq_ok.2
      ⟨_, _, _, Link.Typed.infer_eq hhead, Link.RestTyped.infer_eq _ hrest, rfl⟩

theorem Link.RestTyped.infer_eq {receiver : Receiver} {links : List (Link Receiver)} (token : Token)
    (h : Link.RestTyped c receiver links) :
    Link.inferRest c token receiver links = .ok (Link.mapAll Receiver.ty links) := by
  cases h with
  | nil => exact Link.inferRest_nil_eq_ok.2 ⟨_, rfl, rfl⟩
  | cons h hrest =>
    exact Link.inferRest_cons_eq_ok.2
      ⟨_, _, _, Link.Typed.infer_eq h, Link.RestTyped.infer_eq _ hrest, rfl⟩

theorem Link.Typed.infer_eq {receiver : Option Receiver} {link : Link Receiver}
    (h : link.Typed c receiver) :
    link.infer c receiver = .ok (link.map Receiver.ty, link.result) := by
  cases h with
  | mk h => exact Link.infer_mk_eq_ok.2 ⟨_, Action.Typed.infer_eq h, rfl⟩

theorem Action.Typed.infer_eq {receiver : Option Receiver} {token : Token} {a : Action Receiver}
    {result : Receiver} (h : a.Typed c receiver token result) :
    a.infer c receiver token = .ok (a.map Receiver.ty, result) := by
  cases h with
  | simple h => exact Action.infer_simple_eq_ok.2 ⟨h, rfl⟩
  | call hm hargs =>
    exact Action.infer_call_eq_ok.2 ⟨_, _, hm, hargs.length_eq, Expression.ArgsTyped.infer_eq hargs,
      rfl, rfl⟩
  | index hbase h hint =>
    refine Action.infer_index_eq_ok.2 ⟨_, _, hbase, Expression.Typed.infer_eq h, ?_, rfl, rfl⟩
    rwa [Expression.result_map]
  | newInstance hparams hargs =>
    exact Action.infer_newInstance_eq_ok.2 ⟨_, _, rfl, hparams, hargs.length_eq,
      Expression.ArgsTyped.infer_eq hargs, rfl, rfl⟩
  | newArray helement h hint =>
    refine Action.infer_newArray_eq_ok.2
      ⟨_, _, rfl, helement, Expression.Typed.infer_eq h, ?_, rfl, rfl⟩
    rwa [Expression.result_map]
  | group h =>
    refine Action.infer_group_eq_ok.2 ⟨_, rfl, Expression.Typed.infer_eq h, rfl, ?_⟩
    rw [Expression.result_map]

theorem Expression.ArgsTyped.infer_eq {params : List Binding}
    {args : List (Expression Receiver)} (h : Expression.ArgsTyped c params args) :
    Expression.inferArguments c params args = .ok (Expression.mapAll Receiver.ty args) := by
  cases h with
  | nil => rfl
  | cons h hassignable hargs =>
    refine Expression.inferArguments_cons_eq_ok.2 ⟨_, _, Expression.Typed.infer_eq h, ?_,
      Expression.ArgsTyped.infer_eq hargs, rfl⟩
    rwa [Expression.result_map]

end

mutual

/-- The checker accepts a sentence with an assignment that follows the rules, and stores its
types. -/
theorem Sentence.Typed.infer_eq : ∀ {a : Sentence Receiver}, a.Typed c →
    a.infer c = .ok (a.map Receiver.ty)
  | .block sentences, .block h =>
    Sentence.infer_block_eq_ok.2 ⟨_, Block.Typed.infer_eq h, rfl⟩
  | .conditional token condition thenBranch none, .conditional h hbool hthen _ => by
    refine Sentence.infer_conditional_eq_ok.2 ⟨_, _, h.infer_eq, ?_, Sentence.Typed.infer_eq hthen,
      .inl ⟨rfl, rfl⟩⟩
    rwa [Expression.result_map]
  | .conditional token condition thenBranch (some otherwise), .conditional h hbool hthen helse => by
    refine Sentence.infer_conditional_eq_ok.2 ⟨_, _, h.infer_eq, ?_, Sentence.Typed.infer_eq hthen,
      .inr ⟨otherwise, _, rfl, Sentence.Typed.infer_eq (helse otherwise rfl), rfl⟩⟩
    rwa [Expression.result_map]
  | .loop token condition body, .loop h hbool hbody => by
    refine Sentence.infer_loop_eq_ok.2 ⟨_, _, h.infer_eq, ?_, Sentence.Typed.infer_eq hbody, rfl⟩
    rwa [Expression.result_map]
  | .assignment target token value, .assignment hlast htarget hvalue hassignable => by
    refine Sentence.infer_assignment_eq_ok.2 ⟨_, _, hlast, htarget.infer_eq, hvalue.infer_eq, ?_,
      rfl⟩
    rwa [Expression.result_map, Chain.result_map]
  | .giveBack token none, .returnNothing hvoid => Sentence.infer_returnNothing_eq_ok.2 ⟨hvoid, rfl⟩
  | .giveBack token (some value), .returnValue hvoid h hassignable => by
    refine Sentence.infer_returnValue_eq_ok.2 ⟨_, hvoid, h.infer_eq, ?_, rfl⟩
    rwa [Expression.result_map]
  | .expression e, .expression h => Sentence.infer_expression_eq_ok.2 ⟨_, h.infer_eq, rfl⟩

theorem Block.Typed.infer_eq : ∀ {b : Block Receiver}, b.Typed c →
    b.infer c = .ok (b.map Receiver.ty)
  | [], _ => rfl
  | s :: _, h =>
    Sentence.inferAll_cons_eq_ok.2 ⟨_, _, Sentence.Typed.infer_eq (h s List.mem_cons_self),
      Block.Typed.infer_eq fun s' hs' => h s' (List.mem_cons_of_mem s hs'), rfl⟩

end

end Complete

/-! ## The checker accepts nothing else -/

/-- The result without what it says. -/
def forget (_ : α) : Unit := ()

section Sound

variable {c : Context}

mutual

/-- What the checker accepts has an assignment that follows the rules and has the stored types. -/
theorem Expression.exists_typed : ∀ {e : Expression α} {e' : Expression Ty}, e.infer c = .ok e' →
    ∃ a : Expression Receiver, a.Typed c ∧ a.map forget = e.map forget ∧ a.map Receiver.ty = e'
  | .access chain, e', h => by
    obtain ⟨chain', hchain, rfl⟩ := Expression.infer_access_eq_ok.1 h
    obtain ⟨a, ha, hshape, rfl⟩ := Chain.exists_typed hchain
    exact ⟨.access a, .access ha, congrArg Expression.access hshape, rfl⟩
  | .unary operator operand _, e', h => by
    obtain ⟨op, operand', ty, hop, hsimple, hoperand, hgives, rfl⟩ :=
      Expression.infer_unary_eq_ok.1 h
    obtain ⟨a, ha, hshape, rfl⟩ := Chain.exists_typed hoperand
    refine ⟨.unary operator a (.value ty), .unary hop ?_ ha ?_, ?_, rfl⟩
    · rw [← Chain.isSimple_map forget, hshape, Chain.isSimple_map, hsimple]
    · rwa [Chain.result_map] at hgives
    · rw [Expression.map, Expression.map, hshape]
  | .binary left operator right _, e', h => by
    obtain ⟨op, left', right', ty, hop, hleft, hright, hgives, rfl⟩ :=
      Expression.infer_binary_eq_ok.1 h
    obtain ⟨l, hl, hlshape, rfl⟩ := Expression.exists_typed hleft
    obtain ⟨r, hr, hrshape, rfl⟩ := Expression.exists_typed hright
    refine ⟨.binary l operator r (.value ty), .binary hop hl hr ?_, ?_, rfl⟩
    · rwa [Expression.result_map, Expression.result_map] at hgives
    · rw [Expression.map, Expression.map, hlshape, hrshape]

theorem Chain.exists_typed : ∀ {chain : Chain α} {chain' : Chain Ty}, chain.infer c = .ok chain' →
    ∃ a : Chain Receiver, a.Typed c ∧ a.map forget = chain.map forget ∧ a.map Receiver.ty = chain'
  | ⟨head, rest⟩, chain', h => by
    obtain ⟨head', result, rest', hhead, hrest, rfl⟩ := Chain.infer_mk_eq_ok.1 h
    obtain ⟨a, ha, hshape, rfl, rfl⟩ := Link.exists_typed hhead
    obtain ⟨as, has, hsshape, rfl⟩ := Link.exists_restTyped hrest
    exact ⟨⟨a, as⟩, .mk ha has, congrArg₂ Chain.mk hshape hsshape, rfl⟩

theorem Link.exists_restTyped {token : Token} : ∀ {links : List (Link α)} {links' : List (Link Ty)}
    {receiver : Receiver}, Link.inferRest c token receiver links = .ok links' →
      ∃ as : List (Link Receiver), Link.RestTyped c receiver as ∧
        Link.mapAll forget as = Link.mapAll forget links ∧ Link.mapAll Receiver.ty as = links'
  | [], links', receiver, h => by
    obtain ⟨ty, rfl, rfl⟩ := Link.inferRest_nil_eq_ok.1 h
    exact ⟨[], .nil, rfl, rfl⟩
  | link :: rest, links', receiver, h => by
    obtain ⟨link', result, rest', hlink, hrest, rfl⟩ := Link.inferRest_cons_eq_ok.1 h
    obtain ⟨a, ha, hshape, rfl, rfl⟩ := Link.exists_typed hlink
    obtain ⟨as, has, hsshape, rfl⟩ := Link.exists_restTyped hrest
    exact ⟨a :: as, .cons ha has, congrArg₂ List.cons hshape hsshape, rfl⟩

theorem Link.exists_typed {receiver : Option Receiver} : ∀ {link : Link α} {link' : Link Ty}
    {result : Receiver}, link.infer c receiver = .ok (link', result) →
      ∃ a : Link Receiver, a.Typed c receiver ∧ a.map forget = link.map forget ∧
        a.map Receiver.ty = link' ∧ a.result = result
  | ⟨token, action, _⟩, link', result, h => by
    obtain ⟨action', haction, rfl⟩ := Link.infer_mk_eq_ok.1 h
    obtain ⟨a, ha, hshape, rfl⟩ := Action.exists_typed haction
    refine ⟨⟨token, a, result⟩, .mk ha, ?_, rfl, rfl⟩
    rw [Link.map, Link.map, hshape]

theorem Action.exists_typed {receiver : Option Receiver} {token : Token} : ∀ {action : Action α}
    {action' : Action Ty} {result : Receiver},
    action.infer c receiver token = .ok (action', result) →
      ∃ a : Action Receiver, a.Typed c receiver token result ∧ a.map forget = action.map forget ∧
        a.map Receiver.ty = action'
  | .simple, action', result, h => by
    obtain ⟨hdenotes, rfl⟩ := Action.infer_simple_eq_ok.1 h
    exact ⟨.simple, .simple hdenotes, rfl, rfl⟩
  | .call args, action', result, h => by
    obtain ⟨m, args', hm, harity, hargs, rfl, rfl⟩ := Action.infer_call_eq_ok.1 h
    obtain ⟨as, has, hshape, rfl⟩ := Expression.exists_argsTyped harity hargs
    exact ⟨.call as, .call hm has, congrArg Action.call hshape, rfl⟩
  | .index position, action', result, h => by
    obtain ⟨element, position', hbase, hposition, hint, rfl, rfl⟩ := Action.infer_index_eq_ok.1 h
    obtain ⟨a, ha, hshape, rfl⟩ := Expression.exists_typed hposition
    rw [Expression.result_map] at hint
    exact ⟨.index a, .index hbase ha hint, congrArg Action.index hshape, rfl⟩
  | .newInstance args, action', result, h => by
    obtain ⟨params, args', rfl, hparams, harity, hargs, rfl, rfl⟩ :=
      Action.infer_newInstance_eq_ok.1 h
    obtain ⟨as, has, hshape, rfl⟩ := Expression.exists_argsTyped harity hargs
    exact ⟨.newInstance as, .newInstance hparams has, congrArg Action.newInstance hshape, rfl⟩
  | .newArray dimension, action', result, h => by
    obtain ⟨element, dimension', rfl, helement, hdimension, hint, rfl, rfl⟩ :=
      Action.infer_newArray_eq_ok.1 h
    obtain ⟨a, ha, hshape, rfl⟩ := Expression.exists_typed hdimension
    rw [Expression.result_map] at hint
    exact ⟨.newArray a, .newArray helement ha hint, congrArg Action.newArray hshape, rfl⟩
  | .group inner, action', result, h => by
    obtain ⟨inner', rfl, hinner, rfl, rfl⟩ := Action.infer_group_eq_ok.1 h
    obtain ⟨a, ha, hshape, rfl⟩ := Expression.exists_typed hinner
    rw [Expression.result_map]
    exact ⟨.group a, .group ha, congrArg Action.group hshape, rfl⟩

theorem Expression.exists_argsTyped : ∀ {params : List Binding} {args : List (Expression α)}
    {args' : List (Expression Ty)}, params.length = args.length →
    Expression.inferArguments c params args = .ok args' →
      ∃ as : List (Expression Receiver), Expression.ArgsTyped c params as ∧
        Expression.mapAll forget as = Expression.mapAll forget args ∧
        Expression.mapAll Receiver.ty as = args'
  | [], [], _, _, h => by
    cases h
    exact ⟨[], .nil, rfl, rfl⟩
  | param :: params, arg :: args, args', hlength, h => by
    obtain ⟨arg', rest', harg, hassignable, hrest, rfl⟩ := Expression.inferArguments_cons_eq_ok.1 h
    obtain ⟨a, ha, hshape, rfl⟩ := Expression.exists_typed harg
    obtain ⟨as, has, hsshape, rfl⟩ := Expression.exists_argsTyped (Nat.succ.inj hlength) hrest
    rw [Expression.result_map] at hassignable
    exact ⟨a :: as, .cons ha hassignable has, congrArg₂ List.cons hshape hsshape, rfl⟩

end

mutual

theorem Sentence.exists_typed : ∀ {s : Sentence α} {s' : Sentence Ty}, s.infer c = .ok s' →
    ∃ a : Sentence Receiver, a.Typed c ∧ a.map forget = s.map forget ∧ a.map Receiver.ty = s'
  | .block sentences, s', h => by
    obtain ⟨sentences', hsentences, rfl⟩ := Sentence.infer_block_eq_ok.1 h
    obtain ⟨as, has, hshape, rfl⟩ := Block.exists_typed hsentences
    exact ⟨.block as, .block has, congrArg Sentence.block hshape, rfl⟩
  | .conditional token condition thenBranch elseBranch, s', h => by
    obtain ⟨condition', thenBranch', hcondition, hbool, hthen, helse⟩ :=
      Sentence.infer_conditional_eq_ok.1 h
    obtain ⟨a, ha, hshape, rfl⟩ := Expression.exists_typed hcondition
    obtain ⟨b, hb, hbshape, rfl⟩ := Sentence.exists_typed hthen
    rw [Expression.result_map] at hbool
    obtain ⟨rfl, rfl⟩ | ⟨otherwise, otherwise', rfl, hotherwise, rfl⟩ := helse
    · refine ⟨.conditional token a b none, .conditional ha hbool hb nofun, ?_, rfl⟩
      rw [Sentence.map, Sentence.map, hshape, hbshape]
    · obtain ⟨d, hd, hdshape, rfl⟩ := Sentence.exists_typed hotherwise
      refine ⟨.conditional token a b (some d), .conditional ha hbool hb ?_, ?_, rfl⟩
      · rintro _ ⟨⟩
        exact hd
      · simp only [Sentence.map, hshape, hbshape, hdshape]
  | .loop token condition body, s', h => by
    obtain ⟨condition', body', hcondition, hbool, hbody, rfl⟩ := Sentence.infer_loop_eq_ok.1 h
    obtain ⟨a, ha, hshape, rfl⟩ := Expression.exists_typed hcondition
    obtain ⟨b, hb, hbshape, rfl⟩ := Sentence.exists_typed hbody
    rw [Expression.result_map] at hbool
    refine ⟨.loop token a b, .loop ha hbool hb, ?_, rfl⟩
    rw [Sentence.map, Sentence.map, hshape, hbshape]
  | .assignment target token value, s', h => by
    obtain ⟨target', value', hlast, htarget, hvalue, hassignable, rfl⟩ :=
      Sentence.infer_assignment_eq_ok.1 h
    obtain ⟨a, ha, hshape, rfl⟩ := Chain.exists_typed htarget
    obtain ⟨b, hb, hbshape, rfl⟩ := Expression.exists_typed hvalue
    rw [Expression.result_map, Chain.result_map] at hassignable
    refine ⟨.assignment a token b, .assignment ?_ ha hb hassignable, ?_, rfl⟩
    · rw [← Link.isAssignable_map forget, ← Chain.last_map, hshape, Chain.last_map,
        Link.isAssignable_map, hlast]
    · rw [Sentence.map, Sentence.map, hshape, hbshape]
  | .giveBack token none, s', h => by
    obtain ⟨hvoid, rfl⟩ := Sentence.infer_returnNothing_eq_ok.1 h
    exact ⟨.giveBack token none, .returnNothing hvoid, rfl, rfl⟩
  | .giveBack token (some value), s', h => by
    obtain ⟨value', hvoid, hvalue, hassignable, rfl⟩ := Sentence.infer_returnValue_eq_ok.1 h
    obtain ⟨a, ha, hshape, rfl⟩ := Expression.exists_typed hvalue
    rw [Expression.result_map] at hassignable
    refine ⟨.giveBack token (some a), .returnValue hvoid ha hassignable, ?_, rfl⟩
    rw [Sentence.map, Sentence.map, Option.map_some, Option.map_some, hshape]
  | .expression e, s', h => by
    obtain ⟨e', he, rfl⟩ := Sentence.infer_expression_eq_ok.1 h
    obtain ⟨a, ha, hshape, rfl⟩ := Expression.exists_typed he
    exact ⟨.expression a, .expression ha, congrArg Sentence.expression hshape, rfl⟩

theorem Block.exists_typed : ∀ {b : Block α} {b' : Block Ty}, b.infer c = .ok b' →
    ∃ a : Block Receiver, a.Typed c ∧ a.map forget = b.map forget ∧ a.map Receiver.ty = b'
  | [], b', h => by
    cases h
    exact ⟨[], nofun, rfl, rfl⟩
  | s :: rest, b', h => by
    obtain ⟨s', rest', hs, hrest, rfl⟩ := Sentence.inferAll_cons_eq_ok.1 h
    obtain ⟨a, ha, hshape, rfl⟩ := Sentence.exists_typed hs
    obtain ⟨as, has, hsshape, rfl⟩ := Block.exists_typed hrest
    exact ⟨a :: as, List.forall_mem_cons.2 ⟨ha, has⟩, congrArg₂ List.cons hshape hsshape, rfl⟩

end

end Sound

/-! ## Two assignments are equal -/

section Unique

variable {c : Context}

mutual

/-- A tree has at most one assignment that follows the rules. -/
theorem Expression.Typed.unique : ∀ {a a' : Expression Receiver}, a.Typed c → a'.Typed c →
    a.map forget = a'.map forget → a = a'
  | .access chain, a', .access h, h', hshape => by
    cases h' with
    | access h' =>
      simp only [Expression.map, Expression.access.injEq] at hshape
      rw [Chain.Typed.unique h h' hshape]
    | _ => simp [Expression.map] at hshape
  | .unary operator operand _, a', .unary hop _ h hgives, h', hshape => by
    cases h' with
    | unary hop' _ h' hgives' =>
      simp only [Expression.map, Expression.unary.injEq] at hshape
      obtain ⟨rfl, hoperand, _⟩ := hshape
      cases Chain.Typed.unique h h' hoperand
      cases hop.symm.trans hop'
      rw [hgives.unique hgives']
    | _ => simp [Expression.map] at hshape
  | .binary left operator right _, a', .binary hop hleft hright hgives, h', hshape => by
    cases h' with
    | binary hop' hleft' hright' hgives' =>
      simp only [Expression.map, Expression.binary.injEq] at hshape
      obtain ⟨hlshape, rfl, hrshape, _⟩ := hshape
      cases Expression.Typed.unique hleft hleft' hlshape
      cases Expression.Typed.unique hright hright' hrshape
      cases hop.symm.trans hop'
      rw [hgives.unique hgives']
    | _ => simp [Expression.map] at hshape
termination_by structural a => a

theorem Chain.Typed.unique : ∀ {a a' : Chain Receiver}, a.Typed c → a'.Typed c →
    a.map forget = a'.map forget → a = a'
  | ⟨head, rest⟩, ⟨head', rest'⟩, .mk hhead hrest, .mk hhead' hrest', hshape => by
    simp only [Chain.map, Chain.mk.injEq] at hshape
    cases Link.Typed.unique hhead hhead' hshape.1
    rw [Link.RestTyped.unique hrest hrest' hshape.2]
termination_by structural a => a

theorem Link.RestTyped.unique : ∀ {as as' : List (Link Receiver)} {receiver : Receiver},
    Link.RestTyped c receiver as → Link.RestTyped c receiver as' →
      Link.mapAll forget as = Link.mapAll forget as' → as = as'
  | [], as', _, _, h', hshape => by
    cases h' with
    | nil => rfl
    | cons => simp [Link.mapAll] at hshape
  | a :: as, as', _, .cons h hrest, h', hshape => by
    cases h' with
    | nil => simp [Link.mapAll] at hshape
    | cons h' hrest' =>
      simp only [Link.mapAll, List.cons.injEq] at hshape
      cases Link.Typed.unique h h' hshape.1
      rw [Link.RestTyped.unique hrest hrest' hshape.2]
termination_by structural as => as

theorem Link.Typed.unique : ∀ {a a' : Link Receiver} {receiver : Option Receiver},
    a.Typed c receiver → a'.Typed c receiver → a.map forget = a'.map forget → a = a'
  | ⟨token, action, _⟩, ⟨_, action', _⟩, _, .mk h, .mk h', hshape => by
    simp only [Link.map, Link.mk.injEq] at hshape
    obtain ⟨rfl, haction, _⟩ := hshape
    obtain ⟨rfl, rfl⟩ := Action.Typed.unique h h' haction
    rfl
termination_by structural a => a

theorem Action.Typed.unique : ∀ {a a' : Action Receiver} {receiver : Option Receiver}
    {token : Token} {result result' : Receiver}, a.Typed c receiver token result →
    a'.Typed c receiver token result' → a.map forget = a'.map forget → a = a' ∧ result = result'
  | .simple, a', _, _, _, _, .simple h, h', hshape => by
    cases h' with
    | simple h' => exact ⟨rfl, h.unique h'⟩
    | _ => simp [Action.map] at hshape
  | .call args, a', _, _, _, _, .call hm hargs, h', hshape => by
    cases h' with
    | call hm' hargs' =>
      simp only [Action.map, Action.call.injEq] at hshape
      cases hm.unique hm'
      rw [Expression.ArgsTyped.unique hargs hargs' hshape]
      exact ⟨rfl, rfl⟩
    | _ => simp [Action.map] at hshape
  | .index position, a', _, _, _, _, .index hbase h _, h', hshape => by
    cases h' with
    | index hbase' h' _ =>
      simp only [Action.map, Action.index.injEq] at hshape
      cases hbase.unique hbase'
      rw [Expression.Typed.unique h h' hshape]
      exact ⟨rfl, rfl⟩
    | _ => simp [Action.map] at hshape
  | .newInstance args, a', _, _, _, _, .newInstance hparams hargs, h', hshape => by
    cases h' with
    | newInstance hparams' hargs' =>
      simp only [Action.map, Action.newInstance.injEq] at hshape
      cases hparams.unique hparams'
      rw [Expression.ArgsTyped.unique hargs hargs' hshape]
      exact ⟨rfl, rfl⟩
    | _ => simp [Action.map] at hshape
  | .newArray dimension, a', _, _, _, _, .newArray helement h _, h', hshape => by
    cases h' with
    | newArray helement' h' _ =>
      simp only [Action.map, Action.newArray.injEq] at hshape
      cases helement.symm.trans helement'
      rw [Expression.Typed.unique h h' hshape]
      exact ⟨rfl, rfl⟩
    | _ => simp [Action.map] at hshape
  | .group inner, a', _, _, _, _, .group h, h', hshape => by
    cases h' with
    | group h' =>
      simp only [Action.map, Action.group.injEq] at hshape
      rw [Expression.Typed.unique h h' hshape]
      exact ⟨rfl, rfl⟩
    | _ => simp [Action.map] at hshape
termination_by structural a => a

theorem Expression.ArgsTyped.unique : ∀ {as as' : List (Expression Receiver)}
    {params : List Binding}, Expression.ArgsTyped c params as → Expression.ArgsTyped c params as' →
      Expression.mapAll forget as = Expression.mapAll forget as' → as = as'
  | [], [], _, .nil, .nil, _ => rfl
  | a :: as, a' :: as', _, .cons h _ hargs, .cons h' _ hargs', hshape => by
    simp only [Expression.mapAll, List.cons.injEq] at hshape
    rw [Expression.Typed.unique h h' hshape.1, Expression.ArgsTyped.unique hargs hargs' hshape.2]
termination_by structural as => as

end

mutual

theorem Sentence.Typed.unique : ∀ {a a' : Sentence Receiver}, a.Typed c → a'.Typed c →
    a.map forget = a'.map forget → a = a'
  | .block sentences, a', .block h, h', hshape => by
    cases h' with
    | block h' =>
      simp only [Sentence.map, Sentence.block.injEq] at hshape
      rw [Block.Typed.unique h h' hshape]
    | _ => simp [Sentence.map, Sentence.map_conditional] at hshape
  | .conditional token condition thenBranch none, a', .conditional h _ hthen _, h', hshape => by
    cases h' with
    | conditional h' _ hthen' _ =>
      simp only [Sentence.map_conditional, Sentence.conditional.injEq, Option.map_none,
        @eq_comm _ none, Option.map_eq_none_iff] at hshape
      obtain ⟨rfl, hcondition, hbranch, rfl⟩ := hshape
      rw [h.unique h' hcondition, Sentence.Typed.unique hthen hthen' hbranch]
    | _ => simp [Sentence.map] at hshape
  | .conditional token condition thenBranch (some otherwise), a', .conditional h _ hthen helse, h',
      hshape => by
    cases h' with
    | conditional h' _ hthen' helse' =>
      simp only [Sentence.map_conditional, Sentence.conditional.injEq, Option.map_some,
        @eq_comm _ (some _), Option.map_eq_some_iff] at hshape
      obtain ⟨rfl, hcondition, hbranch, otherwise', rfl, hother⟩ := hshape
      rw [h.unique h' hcondition, Sentence.Typed.unique hthen hthen' hbranch,
        Sentence.Typed.unique (helse otherwise rfl) (helse' otherwise' rfl) hother.symm]
    | _ => simp [Sentence.map] at hshape
  | .loop token condition body, a', .loop h _ hbody, h', hshape => by
    cases h' with
    | loop h' _ hbody' =>
      simp only [Sentence.map, Sentence.loop.injEq] at hshape
      obtain ⟨rfl, hcondition, hbodies⟩ := hshape
      rw [h.unique h' hcondition, Sentence.Typed.unique hbody hbody' hbodies]
    | _ => simp [Sentence.map, Sentence.map_conditional] at hshape
  | .assignment target token value, a', .assignment _ htarget hvalue _, h', hshape => by
    cases h' with
    | assignment _ htarget' hvalue' _ =>
      simp only [Sentence.map, Sentence.assignment.injEq] at hshape
      obtain ⟨htargets, rfl, hvalues⟩ := hshape
      rw [htarget.unique htarget' htargets, hvalue.unique hvalue' hvalues]
    | _ => simp [Sentence.map, Sentence.map_conditional] at hshape
  | .giveBack token none, a', _, h', hshape => by
    cases h' with
    | returnNothing _ =>
      simp only [Sentence.map, Sentence.giveBack.injEq] at hshape
      rw [hshape.1]
    | _ => simp [Sentence.map, Sentence.map_conditional] at hshape
  | .giveBack token (some value), a', .returnValue _ h _, h', hshape => by
    cases h' with
    | returnValue _ h' _ =>
      simp only [Sentence.map, Sentence.giveBack.injEq, Option.map_some,
        Option.some.injEq] at hshape
      rw [hshape.1, h.unique h' hshape.2]
    | _ => simp [Sentence.map, Sentence.map_conditional] at hshape
  | .expression e, a', .expression h, h', hshape => by
    cases h' with
    | expression h' =>
      simp only [Sentence.map, Sentence.expression.injEq] at hshape
      rw [h.unique h' hshape]
    | _ => simp [Sentence.map, Sentence.map_conditional] at hshape
termination_by structural a => a

theorem Block.Typed.unique : ∀ {a a' : Block Receiver}, a.Typed c → a'.Typed c →
    a.map forget = a'.map forget → a = a'
  | [], [], _, _, _ => rfl
  | s :: rest, s' :: rest', h, h', hshape => by
    simp only [Block.map, Sentence.mapAll, List.cons.injEq] at hshape
    rw [Sentence.Typed.unique (h s List.mem_cons_self) (h' s' List.mem_cons_self) hshape.1,
      Block.Typed.unique (fun x hx => h x (List.mem_cons_of_mem s hx))
        (fun x hx => h' x (List.mem_cons_of_mem s' hx)) hshape.2]
termination_by structural a => a

end

end Unique

/-! ## The checker decides the judgement -/

/-- An assignment for an expression: a tree of the same form whose results follow the rules. -/
def Expression.Assignment (c : Context) (e : Expression α) (a : Expression Receiver) : Prop :=
  a.map forget = e.map forget ∧ a.Typed c

/-- An assignment for a body. -/
def Block.Assignment (c : Context) (b : Block α) (a : Block Receiver) : Prop :=
  a.map forget = b.map forget ∧ a.Typed c

section Decision

variable {c : Context}

theorem Expression.Assignment.infer_eq {e : Expression α} {a : Expression Receiver}
    (h : e.Assignment c a) : e.infer c = .ok (a.map Receiver.ty) := by
  rw [← Expression.infer_map c forget e, ← h.1, Expression.infer_map, h.2.infer_eq]

theorem Block.Assignment.infer_eq {b : Block α} {a : Block Receiver} (h : b.Assignment c a) :
    b.infer c = .ok (a.map Receiver.ty) := by
  rw [Block.infer, ← Sentence.inferAll_map c forget b]
  rw [show Sentence.mapAll forget b = Sentence.mapAll forget a from h.1.symm,
    Sentence.inferAll_map]
  exact h.2.infer_eq

theorem Expression.exists_assignment {e : Expression α} {e' : Expression Ty}
    (h : e.infer c = .ok e') : ∃ a, e.Assignment c a := by
  obtain ⟨a, ha, hshape, _⟩ := Expression.exists_typed h
  exact ⟨a, hshape, ha⟩

theorem Block.exists_assignment {b : Block α} {b' : Block Ty} (h : b.infer c = .ok b') :
    ∃ a, b.Assignment c a := by
  obtain ⟨a, ha, hshape, _⟩ := Block.exists_typed h
  exact ⟨a, hshape, ha⟩

end Decision

/-- In every table and method, the checker accepts a body exactly when it has an assignment that
follows the rules; there is only one, and the checker stores its types.  The same holds of a single
expression, with the type at its root as the answer.  What the tree carried before and what had been
created makes no difference. -/
theorem Block.check_decides_typing (c : Context) (created : NameSet) (b : Block (Option Ty)) :
    ((b.check c created).answer = .ok () ↔ ∃ a, b.Assignment c a) ∧
    (∀ a, b.Assignment c a →
      (b.check c created).tree = a.map (fun result => some result.ty) ∧
      ∀ a', b.Assignment c a' → a' = a) ∧
    ∀ e : Expression (Option Ty),
      ((∃ ty, (e.check c created).answer = .ok ty) ↔ ∃ a, e.Assignment c a) ∧
      ∀ a, e.Assignment c a →
        (e.check c created).answer = .ok a.result.ty ∧
        (e.check c created).tree = a.map (fun result => some result.ty) ∧
        (e.check c created).tree.result = some a.result.ty ∧
        ∀ a', e.Assignment c a' → a' = a := by
  refine ⟨?_, fun a ha => ⟨?_, fun a' ha' => ?_⟩, fun e => ⟨?_, fun a ha => ?_⟩⟩
  · rw [Block.answer_check_eq_ok]
    constructor
    · rintro ⟨b', hb⟩
      exact Block.exists_assignment hb
    · rintro ⟨a, ha⟩
      exact ⟨_, ha.infer_eq⟩
  · rw [Block.check_eq_of_infer ha.infer_eq]
    exact Sentence.mapAll_mapAll some Receiver.ty a
  · exact ha'.2.unique ha.2 (ha'.1.trans ha.1.symm)
  · constructor
    · rintro ⟨ty, hty⟩
      obtain ⟨e', he, _⟩ := Expression.answer_check_eq_ok.1 hty
      exact Expression.exists_assignment he
    · rintro ⟨a, ha⟩
      exact ⟨_, Expression.answer_check_eq_ok.2 ⟨_, ha.infer_eq, rfl⟩⟩
  · rw [Expression.check_eq_of_infer ha.infer_eq]
    have hanswer := Expression.result_map Receiver.ty a
    have hroot : ((a.map Receiver.ty).map some).result = some a.result.ty := by
      rw [Expression.result_map, hanswer]
    exact ⟨congrArg Except.ok hanswer, Expression.map_map some Receiver.ty a, hroot,
      fun a' ha' => ha'.2.unique ha.2 (ha'.1.trans ha.1.symm)⟩

/-- A body that calls a static method on a struct that stands for itself. -/
def outputCall : Block (Option Ty) :=
  let literal : Expression (Option Ty) := .access ⟨⟨.builtin .intLiteral "1", .simple, none⟩, []⟩
  [.expression (.access ⟨⟨.builtin .structId "IO", .simple, none⟩,
    [⟨.builtin .objectId "out_int", .call [literal], none⟩]⟩)]

theorem check_decides_typing_of_outputCall :
    let c : Context := ⟨stateAfter SymbolTable.consolidate .new,
      .declare (.builtin .startWord "start") none .start .void 0⟩
    ∃ a, outputCall.Assignment c a ∧
      (outputCall.check c .empty).tree = a.map (fun result => some result.ty) ∧
      ∀ a', outputCall.Assignment c a' → a' = a := by
  intro c
  obtain ⟨hiff, hunique, _⟩ := Block.check_decides_typing c .empty outputCall
  have hok : (outputCall.check c .empty).answer.isOk = true := by decide +kernel
  obtain ⟨_, hanswer⟩ := exists_of_isOk hok
  obtain ⟨a, ha⟩ := hiff.1 hanswer
  exact ⟨a, ha, hunique a ha⟩

end StructLang
