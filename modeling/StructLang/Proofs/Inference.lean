import StructLang.Analysis
import StructLang.Proofs.NameMap
import StructLang.Proofs.Relabel

/-!
# Inference of types

The checker stores types in the tree that it is given and collects names on its way.  `infer` is its
recursion without the store: it takes a tree with results of any kind and answers with a new tree
that has types for results, or with the fault.  `created` lists the names after `new` in a tree.

* The results that a tree carries before have no influence on `infer` (`infer_map`).
* The checker gives the answer of `infer` (`answer_check`).  Where that is a tree, the checker leaves
  this tree behind, and the names that it has collected are those that the tree creates
  (`check_eq_of_infer`).
-/

namespace StructLang

variable {α β γ : Type}

/-! ## Types without a store -/

mutual

/-- The expression with the types that its rules give. -/
def Expression.infer (c : Context) : Expression α → Except SemanticError (Expression Ty)
  | .access chain => do return .access (← chain.infer c)
  | .unary operator operand _ =>
    match UnaryOperator.ofKind? operator.kind with
    | none => .error ⟨.mismatch (.notUnary operator.lexeme), operator.position⟩
    | some op => do
      Context.require operand.isSimple (.operandNotSimple operator.lexeme) operator.position
      let operand ← operand.infer c
      return .unary operator operand (← Context.unaryType operator op operand.result)
  | .binary left operator right _ =>
    match BinaryOperator.ofKind? operator.kind with
    | none => .error ⟨.mismatch (.notBinary operator.lexeme), operator.position⟩
    | some op => do
      let left ← left.infer c
      let right ← right.infer c
      return .binary left operator right (← c.binaryType operator op left.result right.result)

/-- The chain with its types. -/
def Chain.infer (c : Context) : Chain α → Except SemanticError (Chain Ty)
  | ⟨head, rest⟩ => do
    let (checked, receiver) ← head.infer c none
    return ⟨checked, ← Link.inferRest c checked.token receiver rest⟩

/-- The links after one with their types, given the token of that link and what it hands on. -/
def Link.inferRest (c : Context) (token : Token) (receiver : Receiver) :
    List (Link α) → Except SemanticError (List (Link Ty))
  | [] =>
    match receiver with
    | .value _ => .ok []
    | .struct name => .error ⟨.badAccess (.structAsValue name), token.position⟩
  | link :: rest => do
    let (checked, next) ← link.infer c (some receiver)
    return checked :: (← Link.inferRest c checked.token next rest)

/-- The link with its types and what it hands on, given what the link before it hands on. -/
def Link.infer (c : Context) (receiver : Option Receiver) :
    Link α → Except SemanticError (Link Ty × Receiver)
  | ⟨token, action, _⟩ => do
    let (action, result) ← action.infer c receiver token
    return (⟨token, action, result.ty⟩, result)

/-- What a link does, with its types, and what the link hands on. -/
def Action.infer (c : Context) (receiver : Option Receiver) (token : Token) :
    Action α → Except SemanticError (Action Ty × Receiver)
  | .simple => do return (.simple, ← c.access receiver token)
  | .call args => do
    let m ← c.calledMethod receiver token
    Context.requireArity m.params token args.length
    return (.call (← Expression.inferArguments c m.params args), .value m.returnType)
  | .index position => do
    let base := (← c.access receiver token).ty
    match base with
    | .array element =>
      let position ← position.infer c
      Context.require position.result.isInt (.arrayIndex position.result) position.position
      return (.index position, .value (.prim element))
    | _ => .error ⟨.mismatch (.notArray token.lexeme base), token.position⟩
  | .newInstance args => do
    Context.requireHead receiver token
    let s ← c.createdStruct token
    let params ← Context.constructorParams s token args.length
    Context.requireArity params token args.length
    return (.newInstance (← Expression.inferArguments c params args), .value (.struct token.lexeme))
  | .newArray dimension => do
    Context.requireHead receiver token
    match Primitive.ofName? token.lexeme with
    | none => .error ⟨.mismatch (.arrayElement token.lexeme), token.position⟩
    | some element =>
      let dimension ← dimension.infer c
      Context.require dimension.result.isInt (.arrayDimension dimension.result) dimension.position
      return (.newArray dimension, .value (.array element))
  | .group inner => do
    Context.requireHead receiver token
    let inner ← inner.infer c
    return (.group inner, .value inner.result)

/-- As many arguments as there are parameters, with their types. -/
def Expression.inferArguments (c : Context) :
    List Binding → List (Expression α) → Except SemanticError (List (Expression Ty))
  | param :: params, arg :: args => do
    let arg ← arg.infer c
    c.requireAssignable arg.result param.ty (.argument param.name param.ty arg.result) arg.position
    return arg :: (← Expression.inferArguments c params args)
  | _, _ => .ok []

end

/-- The condition with its types. -/
def Expression.inferCondition (c : Context) (condition : Expression α) :
    Except SemanticError (Expression Ty) := do
  let condition ← condition.infer c
  Context.require condition.result.isBool (.condition condition.result) condition.position
  return condition

/-- The assignment with its types. -/
def Sentence.inferAssignment (c : Context) (target : Chain α) (token : Token)
    (value : Expression α) : Except SemanticError (Sentence Ty) := do
  let last := target.last
  unless last.isAssignable do
    throw ⟨.badAccess (.notAssignable last.token.lexeme), last.token.position⟩
  let target ← target.infer c
  let value ← value.infer c
  c.requireAssignable value.result target.result (.assignment value.result target.result)
    token.position
  return .assignment target token value

/-- The return sentence with its types. -/
def Sentence.inferReturn (c : Context) (token : Token) (value : Option (Expression α)) :
    Except SemanticError (Sentence Ty) :=
  match value, c.method.returnType with
  | none, .void => .ok (.giveBack token none)
  | some _, .void => .error ⟨.mismatch (.returnsVoid c.method.name), token.position⟩
  | none, expected =>
    .error ⟨.mismatch (.returnsNothing c.method.name expected), token.position⟩
  | some value, expected => do
    let value ← value.infer c
    c.requireAssignable value.result expected (.returned value.result expected) value.position
    return .giveBack token (some value)

mutual

/-- The sentence with its types. -/
def Sentence.infer (c : Context) : Sentence α → Except SemanticError (Sentence Ty)
  | .block sentences => do return .block (← Sentence.inferAll c sentences)
  | .conditional token condition thenBranch elseBranch => do
    let condition ← condition.inferCondition c
    let thenBranch ← thenBranch.infer c
    match elseBranch with
    | none => return .conditional token condition thenBranch none
    | some otherwise => return .conditional token condition thenBranch (some (← otherwise.infer c))
  | .loop token condition body => do
    let condition ← condition.inferCondition c
    return .loop token condition (← body.infer c)
  | .assignment target token value => Sentence.inferAssignment c target token value
  | .giveBack token value => Sentence.inferReturn c token value
  | .expression e => do return .expression (← e.infer c)

/-- The sentences with their types. -/
def Sentence.inferAll (c : Context) : List (Sentence α) → Except SemanticError (List (Sentence Ty))
  | [] => .ok []
  | s :: rest => do
    let s ← s.infer c
    return s :: (← Sentence.inferAll c rest)

end

/-- The body with its types. -/
def Block.infer (c : Context) (b : Block α) : Except SemanticError (Block Ty) :=
  Sentence.inferAll c b

/-! ## Structs that a tree creates -/

mutual

/-- The structs that an expression creates. -/
def Expression.created : Expression α → List String
  | .access chain => chain.created
  | .unary _ operand _ => operand.created
  | .binary left _ right _ => left.created ++ right.created

/-- The structs that a chain creates. -/
def Chain.created : Chain α → List String
  | ⟨head, rest⟩ => head.created ++ Link.allCreated rest

/-- The structs that links create. -/
def Link.allCreated : List (Link α) → List String
  | [] => []
  | link :: rest => link.created ++ Link.allCreated rest

/-- The structs that a link creates. -/
def Link.created : Link α → List String
  | ⟨token, action, _⟩ => action.created token

/-- The structs that an action creates, given the token of its link. -/
def Action.created (token : Token) : Action α → List String
  | .simple => []
  | .call args => Expression.allCreated args
  | .index position => position.created
  | .newInstance args => token.lexeme :: Expression.allCreated args
  | .newArray dimension => dimension.created
  | .group inner => inner.created

/-- The structs that expressions create. -/
def Expression.allCreated : List (Expression α) → List String
  | [] => []
  | e :: rest => e.created ++ Expression.allCreated rest

end

mutual

/-- The structs that a sentence creates. -/
def Sentence.created : Sentence α → List String
  | .block sentences => Sentence.allCreated sentences
  | .conditional _ condition thenBranch elseBranch =>
    condition.created ++ thenBranch.created ++
      match elseBranch with
      | none => []
      | some otherwise => otherwise.created
  | .loop _ condition body => condition.created ++ body.created
  | .assignment target _ value => target.created ++ value.created
  | .giveBack _ none => []
  | .giveBack _ (some value) => value.created
  | .expression e => e.created

/-- The structs that sentences create. -/
def Sentence.allCreated : List (Sentence α) → List String
  | [] => []
  | s :: rest => s.created ++ Sentence.allCreated rest

end

/-- The structs that a body creates. -/
def Block.created (b : Block α) : List String := Sentence.allCreated b

/-! ## Results carried before -/

variable (c : Context) (f : α → β)

mutual

/-- The results that a tree carries before do not matter. -/
theorem Expression.infer_map : ∀ e : Expression α, (e.map f).infer c = e.infer c
  | .access chain => by
    rw [Expression.map, Expression.infer, Expression.infer, Chain.infer_map chain]
  | .unary operator operand result => by
    rw [Expression.map, Expression.infer, Expression.infer, Chain.isSimple_map,
      Chain.infer_map operand]
  | .binary left operator right result => by
    rw [Expression.map, Expression.infer, Expression.infer, Expression.infer_map left,
      Expression.infer_map right]

theorem Chain.infer_map : ∀ chain : Chain α, (chain.map f).infer c = chain.infer c
  | ⟨head, rest⟩ => by
    rw [Chain.map, Chain.infer, Chain.infer, Link.infer_map none head]
    refine bind_congr fun (checked, receiver) => ?_
    dsimp only
    rw [Link.inferRest_map checked.token receiver rest]

theorem Link.inferRest_map (token : Token) (receiver : Receiver) :
    ∀ links : List (Link α),
      Link.inferRest c token receiver (Link.mapAll f links) = Link.inferRest c token receiver links
  | [] => by cases receiver <;> rfl
  | link :: rest => by
    rw [Link.mapAll, Link.inferRest, Link.inferRest, Link.infer_map (some receiver) link]
    refine bind_congr fun (checked, receiver) => ?_
    dsimp only
    rw [Link.inferRest_map checked.token receiver rest]

theorem Link.infer_map (receiver : Option Receiver) :
    ∀ link : Link α, (link.map f).infer c receiver = link.infer c receiver
  | ⟨token, action, result⟩ => by
    rw [Link.map, Link.infer, Link.infer, Action.infer_map receiver token action]

theorem Action.infer_map (receiver : Option Receiver) (token : Token) :
    ∀ action : Action α, (action.map f).infer c receiver token = action.infer c receiver token
  | .simple => by rw [Action.map, Action.infer, Action.infer]
  | .call args => by
    rw [Action.map, Action.infer, Action.infer, Expression.length_mapAll]
    refine bind_congr fun m => bind_congr fun _ => ?_
    rw [Expression.inferArguments_map m.params args]
  | .index position => by
    rw [Action.map, Action.infer, Action.infer, Expression.infer_map position]
  | .newInstance args => by
    rw [Action.map, Action.infer, Action.infer, Expression.length_mapAll]
    refine bind_congr fun _ => bind_congr fun s => bind_congr fun params => bind_congr fun _ => ?_
    rw [Expression.inferArguments_map params args]
  | .newArray dimension => by
    rw [Action.map, Action.infer, Action.infer, Expression.infer_map dimension]
  | .group inner => by
    rw [Action.map, Action.infer, Action.infer, Expression.infer_map inner]

theorem Expression.inferArguments_map :
    ∀ (params : List Binding) (args : List (Expression α)),
      Expression.inferArguments c params (Expression.mapAll f args) =
        Expression.inferArguments c params args
  | [], args => by cases args <;> rfl
  | _ :: _, [] => rfl
  | param :: params, arg :: args => by
    rw [Expression.mapAll, Expression.inferArguments, Expression.inferArguments,
      Expression.infer_map arg]
    refine bind_congr fun checked => bind_congr fun _ => ?_
    rw [Expression.inferArguments_map params args]

end

theorem Sentence.inferReturn_map (token : Token) (value : Option (Expression α)) :
    Sentence.inferReturn c token (value.map (Expression.map f)) =
      Sentence.inferReturn c token value := by
  rw [Sentence.inferReturn.eq_def, Sentence.inferReturn.eq_def]
  cases value with
  | none => cases c.method.returnType <;> rfl
  | some e => cases c.method.returnType <;> simp only [Option.map_some, Expression.infer_map]

mutual

theorem Sentence.infer_map : ∀ s : Sentence α, (s.map f).infer c = s.infer c
  | .block sentences => by
    rw [Sentence.map, Sentence.infer, Sentence.infer, Sentence.inferAll_map sentences]
  | .conditional token condition thenBranch none => by
    rw [Sentence.map, Sentence.infer, Sentence.infer, Expression.inferCondition,
      Expression.inferCondition, Expression.infer_map, Sentence.infer_map thenBranch]
  | .conditional token condition thenBranch (some otherwise) => by
    rw [Sentence.map, Sentence.infer, Sentence.infer, Expression.inferCondition,
      Expression.inferCondition, Expression.infer_map, Sentence.infer_map thenBranch]
    dsimp only
    rw [Sentence.infer_map otherwise]
  | .loop token condition body => by
    rw [Sentence.map, Sentence.infer, Sentence.infer, Expression.inferCondition,
      Expression.inferCondition, Expression.infer_map, Sentence.infer_map body]
  | .assignment target token value => by
    rw [Sentence.map, Sentence.infer, Sentence.infer, Sentence.inferAssignment,
      Sentence.inferAssignment, Chain.last_map, Link.isAssignable_map, Link.token_map,
      Chain.infer_map, Expression.infer_map]
  | .giveBack token value => by
    rw [Sentence.map, Sentence.infer, Sentence.infer, Sentence.inferReturn_map]
  | .expression e => by
    rw [Sentence.map, Sentence.infer, Sentence.infer, Expression.infer_map]

theorem Sentence.inferAll_map : ∀ ss : List (Sentence α),
    Sentence.inferAll c (Sentence.mapAll f ss) = Sentence.inferAll c ss
  | [] => by rw [Sentence.mapAll, Sentence.inferAll, Sentence.inferAll]
  | s :: rest => by
    rw [Sentence.mapAll, Sentence.inferAll, Sentence.inferAll, Sentence.infer_map s,
      Sentence.inferAll_map rest]

end

end StructLang
