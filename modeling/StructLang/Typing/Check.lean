import StructLang.Program.Results
import StructLang.Typing.Context

/-!
# Checking bodies

The checker walks over a tree, stores a type at every expression node and at every link, and collects
the structs that are created.  It stops at the first fault; what it has stored and collected by then
stays.

A node is finished from its parts upward: a part goes back into its place before the rules of the
node are asked, and the type of a node is stored when all of them have agreed.
-/

namespace StructLang

/-! ## Checks -/

/-- How a check ends: the tree as it is then, the structs created so far, and the answer. -/
structure Checked (τ α : Type) where
  tree : τ
  created : NameSet
  answer : Except SemanticError α

/-- A check of a tree, given the structs that were created before. -/
abbrev Checking (τ α : Type) := NameSet → Checked τ α

namespace Checking

variable {σ τ α β : Type}

/-- Ends a check with an answer. -/
def done (tree : τ) (a : α) : Checking τ α := fun created => ⟨tree, created, .ok a⟩

/-- Stops a check.  The tree stays as it is. -/
def stop (tree : τ) (e : SemanticError) : Checking τ α := fun created => ⟨tree, created, .error e⟩

/-- Asks a rule and goes on with what it gives.  Where the rule refuses, the tree stays as it is. -/
def ask (tree : τ) (rule : Except SemanticError α) (next : α → Checking τ β) : Checking τ β :=
  match rule with
  | .ok a => next a
  | .error e => stop tree e

/-- Checks a part of a tree and goes on with the part as it is then.  Where the check of the part
stops, the part goes back into its place. -/
def part (check : Checking σ α) (place : σ → τ) (next : σ → α → Checking τ β) : Checking τ β :=
  fun created =>
    match check created with
    | ⟨tree, created, .ok a⟩ => next tree a created
    | ⟨tree, created, .error e⟩ => ⟨place tree, created, .error e⟩

/-- Adds a struct to those that are created. -/
def create (name : String) (next : Checking τ α) : Checking τ α :=
  fun created => next (created.insert name)

end Checking

/-! ## Expressions -/

mutual

/-- Checks an expression and answers with its type. -/
def Expression.check (c : Context) : Expression (Option Ty) → Checking (Expression (Option Ty)) Ty
  | .access chain => (chain.check c).part .access fun chain ty => .done (.access chain) ty
  | .unary operator operand before =>
    match UnaryOperator.ofKind? operator.kind with
    | none => .stop (.unary operator operand before)
        ⟨.mismatch (.notUnary operator.lexeme), operator.position⟩
    | some op =>
      .ask (.unary operator operand before)
        (Context.require operand.isSimple (.operandNotSimple operator.lexeme) operator.position)
        fun _ =>
      (operand.check c).part (.unary operator · before) fun operand ty =>
      .ask (.unary operator operand before) (Context.unaryType operator op ty) fun result =>
      .done (.unary operator operand (some result)) result
  | .binary left operator right before =>
    match BinaryOperator.ofKind? operator.kind with
    | none => .stop (.binary left operator right before)
        ⟨.mismatch (.notBinary operator.lexeme), operator.position⟩
    | some op =>
      (left.check c).part (.binary · operator right before) fun left l =>
      (right.check c).part (.binary left operator · before) fun right r =>
      .ask (.binary left operator right before) (c.binaryType operator op l r) fun result =>
      .done (.binary left operator right (some result)) result

/-- Checks a chain and answers with its type. -/
def Chain.check (c : Context) : Chain (Option Ty) → Checking (Chain (Option Ty)) Ty
  | ⟨head, rest⟩ =>
    (head.check c none).part (⟨·, rest⟩) fun head receiver =>
    (Link.checkRest c head.token receiver rest).part (⟨head, ·⟩) fun rest ty =>
    .done ⟨head, rest⟩ ty

/-- Checks the links after one, given the token of that link and what it hands on, and answers with
the type of the last one.  A chain may not end with a struct that stands for itself. -/
def Link.checkRest (c : Context) (token : Token) (receiver : Receiver) :
    List (Link (Option Ty)) → Checking (List (Link (Option Ty))) Ty
  | [] =>
    match receiver with
    | .value ty => .done [] ty
    | .struct name => .stop [] ⟨.badAccess (.structAsValue name), token.position⟩
  | link :: rest =>
    (link.check c (some receiver)).part (· :: rest) fun link next =>
    (Link.checkRest c link.token next rest).part (link :: ·) fun rest ty =>
    .done (link :: rest) ty

/-- Checks a link, given what the link before it hands on, and answers with what it hands on. -/
def Link.check (c : Context) (receiver : Option Receiver) :
    Link (Option Ty) → Checking (Link (Option Ty)) Receiver
  | ⟨token, action, before⟩ =>
    (action.check c receiver token).part (⟨token, ·, before⟩) fun action result =>
    .done ⟨token, action, some result.ty⟩ result

/-- Checks what a link does, and answers with what it hands on. -/
def Action.check (c : Context) (receiver : Option Receiver) (token : Token) :
    Action (Option Ty) → Checking (Action (Option Ty)) Receiver
  | .simple => .ask .simple (c.access receiver token) fun result => .done .simple result
  | .call args =>
    .ask (.call args) (c.calledMethod receiver token) fun m =>
    .ask (.call args) (Context.requireArity m.params token args.length) fun _ =>
    (Expression.checkArguments c m.params args).part .call fun args _ =>
    .done (.call args) (.value m.returnType)
  | .index position =>
    .ask (.index position) (c.access receiver token) fun base =>
    match base.ty with
    | .array element =>
      (position.check c).part .index fun position ty =>
      .ask (.index position) (Context.require ty.isInt (.arrayIndex ty) position.position) fun _ =>
      .done (.index position) (.value (.prim element))
    | base => .stop (.index position) ⟨.mismatch (.notArray token.lexeme base), token.position⟩
  | .newInstance args =>
    .ask (.newInstance args) (Context.requireHead receiver token) fun _ =>
    .ask (.newInstance args) (c.createdStruct token) fun s =>
    .ask (.newInstance args) (Context.constructorParams s token args.length) fun params =>
    .ask (.newInstance args) (Context.requireArity params token args.length) fun _ =>
    (Expression.checkArguments c params args).part .newInstance fun args _ =>
    .create token.lexeme <|
    .done (.newInstance args) (.value (.struct token.lexeme))
  | .newArray dimension =>
    .ask (.newArray dimension) (Context.requireHead receiver token) fun _ =>
    match Primitive.ofName? token.lexeme with
    | none => .stop (.newArray dimension) ⟨.mismatch (.arrayElement token.lexeme), token.position⟩
    | some element =>
      (dimension.check c).part .newArray fun dimension ty =>
      .ask (.newArray dimension)
        (Context.require ty.isInt (.arrayDimension ty) dimension.position) fun _ =>
      .done (.newArray dimension) (.value (.array element))
  | .group inner =>
    .ask (.group inner) (Context.requireHead receiver token) fun _ =>
    (inner.check c).part .group fun inner ty =>
    .done (.group inner) (.value ty)

/-- Checks as many arguments as there are parameters. -/
def Expression.checkArguments (c : Context) :
    List Binding → List (Expression (Option Ty)) → Checking (List (Expression (Option Ty))) Unit
  | param :: params, arg :: args =>
    (arg.check c).part (· :: args) fun arg ty =>
    .ask (arg :: args)
      (c.requireAssignable ty param.ty (.argument param.name param.ty ty) arg.position) fun _ =>
    (Expression.checkArguments c params args).part (arg :: ·) fun args _ =>
    .done (arg :: args) ()
  | _, args => .done args ()

end

/-! ## Sentences -/

/-- Checks a condition. -/
def Expression.checkCondition (c : Context) (condition : Expression (Option Ty)) :
    Checking (Expression (Option Ty)) Unit :=
  (condition.check c).part id fun condition ty =>
  .ask condition (Context.require ty.isBool (.condition ty) condition.position) fun _ =>
  .done condition ()

/-- Whether a link denotes something that can be assigned to. -/
def Link.isAssignable {α : Type} (l : Link α) : Bool :=
  match l.action with
  | .simple => l.token.kind == .objectId
  | .index _ => true
  | _ => false

/-- Checks an assignment. -/
def Sentence.checkAssignment (c : Context) (target : Chain (Option Ty)) (token : Token)
    (value : Expression (Option Ty)) : Checking (Sentence (Option Ty)) Unit :=
  let last := target.last
  if last.isAssignable then
    (target.check c).part (.assignment · token value) fun target expected =>
    (value.check c).part (.assignment target token ·) fun value found =>
    .ask (.assignment target token value)
      (c.requireAssignable found expected (.assignment found expected) token.position) fun _ =>
    .done (.assignment target token value) ()
  else
    .stop (.assignment target token value)
      ⟨.badAccess (.notAssignable last.token.lexeme), last.token.position⟩

/-- Checks a return sentence against the return type of the method. -/
def Sentence.checkReturn (c : Context) (token : Token) (value : Option (Expression (Option Ty))) :
    Checking (Sentence (Option Ty)) Unit :=
  match value, c.method.returnType with
  | none, .void => .done (.giveBack token none) ()
  | some value, .void => .stop (.giveBack token (some value))
      ⟨.mismatch (.returnsVoid c.method.name), token.position⟩
  | none, expected => .stop (.giveBack token none)
      ⟨.mismatch (.returnsNothing c.method.name expected), token.position⟩
  | some value, expected =>
    (value.check c).part (.giveBack token <| some ·) fun value found =>
    .ask (.giveBack token (some value))
      (c.requireAssignable found expected (.returned found expected) value.position) fun _ =>
    .done (.giveBack token (some value)) ()

mutual

/-- Checks a sentence. -/
def Sentence.check (c : Context) : Sentence (Option Ty) → Checking (Sentence (Option Ty)) Unit
  | .block sentences =>
    (Sentence.checkAll c sentences).part .block fun sentences _ => .done (.block sentences) ()
  | .conditional token condition thenBranch elseBranch =>
    (condition.checkCondition c).part (.conditional token · thenBranch elseBranch)
      fun condition _ =>
    (thenBranch.check c).part (.conditional token condition · elseBranch) fun thenBranch _ =>
    match elseBranch with
    | none => .done (.conditional token condition thenBranch none) ()
    | some otherwise =>
      (otherwise.check c).part (.conditional token condition thenBranch <| some ·)
        fun otherwise _ =>
      .done (.conditional token condition thenBranch (some otherwise)) ()
  | .loop token condition body =>
    (condition.checkCondition c).part (.loop token · body) fun condition _ =>
    (body.check c).part (.loop token condition ·) fun body _ =>
    .done (.loop token condition body) ()
  | .assignment target token value => Sentence.checkAssignment c target token value
  | .giveBack token value => Sentence.checkReturn c token value
  | .expression e => (e.check c).part .expression fun e _ => .done (.expression e) ()

/-- Checks sentences in order. -/
def Sentence.checkAll (c : Context) :
    List (Sentence (Option Ty)) → Checking (List (Sentence (Option Ty))) Unit
  | [] => .done [] ()
  | s :: rest =>
    (s.check c).part (· :: rest) fun s _ =>
    (Sentence.checkAll c rest).part (s :: ·) fun rest _ =>
    .done (s :: rest) ()

end

/-- Checks a body. -/
def Block.check (c : Context) (b : Block (Option Ty)) : Checking (Block (Option Ty)) Unit :=
  Sentence.checkAll c b

end StructLang
