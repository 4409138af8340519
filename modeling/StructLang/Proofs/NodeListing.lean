import StructLang.Proofs.Readings
import StructLang.Proofs.Replacement
import StructLang.Snapshot.Node

/-!
# The nodes of a body

The snapshot of a body is a tree of its own.  It is compared here with the body, node by node.

* `Fragment.walk` goes through a body in source order: a fragment, then its parts, one after the
  other.  The condition of a sentence stands before its branches, the target before the value, the
  left operand before the right one, and a link before its arguments, which stand before the next
  link.  Everything in the body is met (`Fragment.mem_walk_iff`).
* `Fragment.node?` says what a fragment shows of itself.  Chains and the expressions that are only
  accesses have no node of their own.
* The entries of the snapshot in pre-order are those of the walk (`NodeSnapshot.listing_ofBlock`).
  The snapshot hangs the rest of a chain under each link, so the induction is over the syntax and
  takes the nodes of the rest along.
* In an accepted program every expression and every link shows the type that the checker finds for
  it (`Fragment.Typed.shows`).
-/

namespace StructLang

variable {α β : Type}

/-! ## Entries -/

/-- What a node says of itself. -/
structure NodeEntry where
  node : String
  token : Option String
  position : Option Position
  resultType : Option String
  deriving DecidableEq

/-- The entry of a node without a token. -/
def NodeEntry.plain (node : String) : NodeEntry := ⟨node, none, none, none⟩

/-- The entry of a node at a token, with the type that was found. -/
def NodeEntry.anchored (node : String) (token : Token) (result : Option Ty) : NodeEntry :=
  ⟨node, some token.lexeme, some token.position, result.map Ty.text⟩

namespace NodeSnapshot

mutual

/-- The entries of a node and of the nodes under it, in pre-order. -/
def listing : NodeSnapshot → List NodeEntry
  | ⟨node, token, position, resultType, children⟩ =>
    ⟨node, token, position, resultType⟩ :: listAll children

/-- The entries of nodes and of the nodes under them. -/
def listAll : List NodeSnapshot → List NodeEntry
  | [] => []
  | n :: rest => n.listing ++ listAll rest

end

theorem listAll_append (ns ms : List NodeSnapshot) :
    listAll (ns ++ ms) = listAll ns ++ listAll ms := by
  induction ns with
  | nil => rfl
  | cons n ns ih => rw [List.cons_append, listAll, ih, listAll, List.append_assoc]

@[simp] theorem listing_plain (node : String) (children : List NodeSnapshot) :
    (plain node children).listing = .plain node :: listAll children := rfl

@[simp] theorem listing_anchored (node : String) (token : Token) (children : List NodeSnapshot) :
    (anchored node token children).listing = .anchored node token none :: listAll children := rfl

@[simp] theorem listing_typed (node : String) (token : Token) (result : Option Ty)
    (children : List NodeSnapshot) :
    (typed node token result children).listing =
      .anchored node token result :: listAll children := rfl

end NodeSnapshot

/-! ## The walk through a body -/

namespace Fragment

/-- A fragment and all that stands in it, in source order. -/
def walk (x : Fragment α) : List (Fragment α) := x :: x.parts.attach.flatMap fun y => y.1.walk
termination_by x.weight
decreasing_by exact weight_lt_of_mem_parts y.2

theorem walk_eq (x : Fragment α) : x.walk = x :: x.parts.flatMap walk := by
  rw [walk, List.flatMap_subtype (f := fun y => y.1.walk) (g := walk) fun y _ => rfl,
    List.unattach_attach]

/-- The walk meets everything that stands in a fragment, at any depth. -/
theorem mem_walk_iff {x y : Fragment α} : y ∈ x.walk ↔ x.Reaches y := by
  constructor
  · induction x using Fragment.induction_on_parts with
    | step x ih =>
      intro hy
      rw [walk_eq, List.mem_cons, List.mem_flatMap] at hy
      rcases hy with rfl | ⟨z, hz, hy⟩
      · exact .refl
      · exact .head hz (ih z hz hy)
  · intro h
    induction h using Relation.ReflTransGen.head_induction_on with
    | refl =>
      rw [walk_eq]
      exact List.mem_cons_self
    | head hz _ ih =>
      rw [walk_eq]
      exact List.mem_cons_of_mem _ (List.mem_flatMap.2 ⟨_, hz, ih⟩)

/-- The walk through a fragment meets the same with other results. -/
theorem walk_map (f : α → β) (x : Fragment α) : (x.map f).walk = x.walk.map (Fragment.map f) := by
  induction x using Fragment.induction_on_parts with
  | step x ih =>
    rw [walk_eq, walk_eq x, parts_map, List.flatMap_map, List.flatMap_congr ih, List.map_cons,
      List.map_flatMap]

/-- The entry of a fragment, if it has a node of its own. -/
def node? (type : α → Option Ty) : Fragment α → Option NodeEntry
  | sentence (.block _) => some (.plain "block")
  | sentence (.conditional token _ _ _) => some (.anchored "conditional" token none)
  | sentence (.loop token _ _) => some (.anchored "loop" token none)
  | sentence (.assignment _ token _) => some (.anchored "assignment" token none)
  | sentence (.giveBack token _) => some (.anchored "return" token none)
  | sentence (.expression _) => some (.plain "expression_sentence")
  | expression (.access _) => none
  | expression (.unary operator _ result) => some (.anchored "unary" operator (type result))
  | expression (.binary _ operator _ result) => some (.anchored "binary" operator (type result))
  | chain _ => none
  | link _ l => some (.anchored l.action.name l.token (type l.result))

/-- The entries of a fragment and of what stands in it, in source order. -/
def entries (type : α → Option Ty) (x : Fragment α) : List NodeEntry :=
  x.walk.filterMap (node? type)

theorem entries_eq (type : α → Option Ty) (x : Fragment α) :
    x.entries type = (x.node? type).toList ++ x.parts.flatMap (entries type) := by
  rw [entries, walk_eq, List.filterMap_cons, List.filterMap_flatMap]
  cases x.node? type <;> rfl

theorem node?_map (type : β → Option Ty) (f : α → β) (x : Fragment α) :
    (x.map f).node? type = x.node? (type ∘ f) := by
  cases x with
  | sentence s =>
    cases s with
    | conditional token condition thenBranch elseBranch => cases elseBranch <;> rfl
    | block | loop | assignment | giveBack | expression => rfl
  | expression e => cases e <;> rfl
  | chain c => rfl
  | link before l =>
    obtain ⟨token, action, result⟩ := l
    cases action <;> rfl

theorem entries_map (type : β → Option Ty) (f : α → β) (x : Fragment α) :
    (x.map f).entries type = x.entries (type ∘ f) := by
  rw [entries, walk_map, List.filterMap_map, entries]
  exact congrArg (List.filterMap · x.walk) (funext (node?_map type f))

end Fragment

/-! ## The snapshot lists the walk -/

namespace NodeSnapshot

variable (type : α → Option Ty)

mutual

theorem listing_ofExpression : ∀ e : Expression α,
    (ofExpression type e).listing = (Fragment.expression e).entries type
  | .access chain => by
    rw [ofExpression, listing_ofChain chain, Fragment.entries_eq type (.expression _)]
    simp [Fragment.node?, Fragment.parts, Expression.parts]
  | .unary operator operand result => by
    rw [ofExpression, Fragment.entries_eq]
    simp [Fragment.node?, Fragment.parts, Expression.parts, listAll, listing_ofChain operand]
  | .binary left operator right result => by
    rw [ofExpression, Fragment.entries_eq]
    simp [Fragment.node?, Fragment.parts, Expression.parts, listAll, listing_ofExpression left,
      listing_ofExpression right]

theorem listing_ofChain : ∀ chain : Chain α,
    (ofChain type chain).listing = (Fragment.chain chain).entries type
  | ⟨head, rest⟩ => by
    rw [ofChain, listing_ofLink none _ head, listAll_ofRest (some head) rest,
      Fragment.entries_eq type (.chain _)]
    simp [Fragment.node?, Fragment.parts, Link.places]

theorem listAll_ofRest (before : Option (Link α)) : ∀ links : List (Link α),
    listAll (ofRest type links) = (Link.places before links).flatMap (Fragment.entries type)
  | [] => rfl
  | link :: rest => by
    rw [ofRest, listAll, listAll, listing_ofLink before _ link, listAll_ofRest (some link) rest]
    simp [Link.places]

theorem listing_ofLink (before : Option (Link α)) (rest : List NodeSnapshot) : ∀ link : Link α,
    (ofLink type rest link).listing = (Fragment.link before link).entries type ++ listAll rest
  | ⟨token, action, result⟩ => by
    rw [ofLink, Fragment.entries_eq]
    simp [Fragment.node?, Fragment.parts, listAll_append, listAll_ofAction action]

theorem listAll_ofAction : ∀ action : Action α,
    listAll (ofAction type action) = action.parts.flatMap (Fragment.entries type)
  | .simple => rfl
  | .call args | .newInstance args => listAll_ofExpressions args
  | .index e | .newArray e | .group e => by
    simp [ofAction, listAll, Action.parts, listing_ofExpression e]

theorem listAll_ofExpressions : ∀ es : List (Expression α),
    listAll (ofExpressions type es) =
      (es.map Fragment.expression).flatMap (Fragment.entries type)
  | [] => rfl
  | e :: rest => by
    rw [ofExpressions, listAll, listing_ofExpression e, listAll_ofExpressions rest]
    simp

end

mutual

theorem listing_ofSentence : ∀ s : Sentence α,
    (ofSentence type s).listing = (Fragment.sentence s).entries type
  | .block sentences => by
    rw [ofSentence, listing_plain, listAll_ofSentences sentences, Fragment.entries_eq]
    rfl
  | .conditional token condition thenBranch none => by
    rw [ofSentence, Fragment.entries_eq]
    simp [Fragment.node?, Fragment.parts, Sentence.parts, listAll, listing_ofExpression,
      listing_ofSentence thenBranch]
  | .conditional token condition thenBranch (some otherwise) => by
    rw [ofSentence, Fragment.entries_eq]
    simp [Fragment.node?, Fragment.parts, Sentence.parts, listAll, listing_ofExpression,
      listing_ofSentence thenBranch, listing_ofSentence otherwise]
  | .loop token condition body => by
    rw [ofSentence, Fragment.entries_eq]
    simp [Fragment.node?, Fragment.parts, Sentence.parts, listAll, listing_ofExpression,
      listing_ofSentence body]
  | .assignment target token value => by
    rw [ofSentence, Fragment.entries_eq]
    simp [Fragment.node?, Fragment.parts, Sentence.parts, listAll, listing_ofExpression,
      listing_ofChain]
  | .giveBack token none => by
    rw [ofSentence, Fragment.entries_eq]
    simp [Fragment.node?, Fragment.parts, Sentence.parts, listAll]
  | .giveBack token (some value) => by
    rw [ofSentence, Fragment.entries_eq]
    simp [Fragment.node?, Fragment.parts, Sentence.parts, listAll, listing_ofExpression]
  | .expression e => by
    rw [ofSentence, Fragment.entries_eq]
    simp [Fragment.node?, Fragment.parts, Sentence.parts, listAll, listing_ofExpression]

theorem listAll_ofSentences : ∀ ss : List (Sentence α),
    listAll (ofSentences type ss) = (ss.map Fragment.sentence).flatMap (Fragment.entries type)
  | [] => rfl
  | s :: rest => by
    rw [ofSentences, listAll, listing_ofSentence s, listAll_ofSentences rest]
    simp

end

end NodeSnapshot

/-- The entries of a body, in source order. -/
def Block.entries (type : α → Option Ty) (b : Block α) : List NodeEntry :=
  (Fragment.sentence (.block b)).entries type

/-- The snapshot of a body lists its nodes, each once and in source order. -/
theorem NodeSnapshot.listing_ofBlock (type : α → Option Ty) (b : Block α) :
    (ofBlock type b).listing = b.entries type :=
  listing_ofSentence type (.block b)

/-! ## The types that are shown -/

section Shows

variable {c : Context}

/-- An entry shows what the checker finds: the type of an expression, or of what a link hands on
after the link before it.  A sentence has no type, and a chain has no entry. -/
def Fragment.Shows (c : Context) (entry : NodeEntry) : Fragment Receiver → Prop
  | sentence _ => entry.resultType = none
  | expression e => ∃ ty, (e.map fun _ => none).ChecksTo c ty ∧
      entry.resultType = some ty.text
  | chain _ => False
  | link before l => ∃ result,
      ((l.map fun _ => none).check c (before.map Link.result) .empty).answer = .ok result ∧
      entry.resultType = some result.ty.text

/-- What follows the rules shows what the checker finds. -/
theorem Fragment.Typed.shows {x : Fragment Receiver} (h : x.Typed c) {entry : NodeEntry}
    (hentry : x.node? (some ∘ Receiver.ty) = some entry) : x.Shows c entry := by
  cases x with
  | sentence s =>
    cases s <;> cases hentry <;> rfl
  | expression e =>
    have hchecks : (e.map fun _ => none).ChecksTo c e.result.ty := by
      rw [Expression.checksTo_iff]
      refine ⟨e.map Receiver.ty, ?_, Expression.result_map _ e⟩
      rw [Expression.infer_map, Expression.Typed.infer_eq h]
    refine ⟨e.result.ty, hchecks, ?_⟩
    cases e with
    | access => cases hentry
    | unary | binary =>
      cases hentry
      rfl
  | chain a => cases hentry
  | link before l =>
    cases hentry
    refine ⟨l.result, ?_, rfl⟩
    rw [Link.answer_check, Link.infer_map, Link.Typed.infer_eq h]
    rfl

end Shows

/-- A snapshot shows a body of a program: its nodes in source order, with the types that the checker
finds for them in the method of the body. -/
structure Body.ShownBy (t : SymbolTable) (b : Body Unit) (s : BodySnapshot) : Prop where
  owner : s.owner = b.owner
  method : s.method = b.token.lexeme
  kind : s.kind = b.kind
  nodes : ∃ m a, t.method? b.owner b.kind b.token.lexeme = some m ∧ b.block.Assignment ⟨t, m⟩ a ∧
    s.body.listing = a.entries (some ∘ Receiver.ty) ∧
    ∀ x ∈ (Fragment.sentence (.block a)).walk, ∀ entry,
      x.node? (some ∘ Receiver.ty) = some entry → x.Shows ⟨t, m⟩ entry

theorem Body.shownBy_of_infer {t : SymbolTable} {b : Body Unit} {b' : Body Ty}
    (h : b.infer t = .ok b') : b.ShownBy t (.ofBody (b'.map some)) := by
  obtain ⟨m, block, hm, hblock, rfl⟩ := Body.infer_eq_ok.1 h
  obtain ⟨a, ha, hshape, rfl⟩ := Block.exists_typed hblock
  refine ⟨rfl, rfl, rfl, m, a, hm, ⟨hshape, ha⟩, ?_, fun x hx entry hentry => ?_⟩
  · show (NodeSnapshot.ofBlock id (Block.map some (a.map Receiver.ty))).listing = _
    rw [NodeSnapshot.listing_ofBlock]
    exact (Fragment.entries_map id some (.sentence (.block (a.map Receiver.ty)))).trans
      (Fragment.entries_map some Receiver.ty (.sentence (.block a)))
  · have hbody : Block.Typed ⟨t, m⟩ [.block a] := List.forall_mem_singleton.2 (.block ha)
    have hcontains : Block.Contains [.block a] x :=
      ⟨_, List.mem_singleton.2 rfl, Fragment.mem_walk_iff.1 hx⟩
    exact (hbody.of_contains hcontains).shows hentry

/-- The snapshot of a body lists the nodes of the body in source order, whatever types they carry.
In the snapshot of an accepted program every expression and every link has the type that the checker
finds for it. -/
theorem AstSnapshot.listing_bodies :
    (∀ (α : Type) (type : α → Option Ty) (b : Block α),
      (NodeSnapshot.ofBlock type b).listing = b.entries type) ∧
    (∀ bodies : List (Body (Option Ty)),
      (ofBodies bodies).bodies.map (·.body.listing) = bodies.map (·.block.entries id)) ∧
    ∀ (p : Program) (A : Analysis), p.analyze = .ok A →
      ∃ t, p.declare.run .new = .ok () t ∧
        List.Forall₂ (Body.ShownBy t) p.bodies (ofBodies A.bodies).bodies := by
  refine ⟨fun _ => NodeSnapshot.listing_ofBlock, fun bodies => ?_, fun p A h => ?_⟩
  · rw [ofBodies, List.map_map]
    exact List.map_congr_left fun b _ => NodeSnapshot.listing_ofBlock id b.block
  · obtain ⟨t, hrun, htyped, rfl⟩ := Program.analyze_eq_ok.1 h
    refine ⟨t, hrun, ?_⟩
    rw [ofBodies, Analysis.ofTyped, List.map_map, List.map_map, List.forall₂_map_right_iff,
      List.forall₂_same]
    exact fun b hb => Body.shownBy_of_infer (htyped b hb)

/-- A program that prints a number. -/
def printingProgram : Program :=
  ⟨[.start ⟨.builtin .startWord "start", [], outputCall.map forget⟩]⟩

theorem listing_bodies_printingProgram :
    ∃ A t, printingProgram.analyze = .ok A ∧ printingProgram.declare.run .new = .ok () t ∧
      List.Forall₂ (Body.ShownBy t) printingProgram.bodies (AstSnapshot.ofBodies A.bodies).bodies ∧
      (AstSnapshot.ofBodies A.bodies).bodies.map (·.body.listing) =
        [[⟨"block", none, none, none⟩, ⟨"expression_sentence", none, none, none⟩,
          ⟨"simple_access", some "IO", some ⟨0, 0⟩, some "IO"⟩,
          ⟨"method_call", some "out_int", some ⟨0, 0⟩, some "void"⟩,
          ⟨"simple_access", some "1", some ⟨0, 0⟩, some "literal Int"⟩]] := by
  have hlisting : printingProgram.analyze.toOption.map
      (fun A => (AstSnapshot.ofBodies A.bodies).bodies.map (·.body.listing)) =
        some [[⟨"block", none, none, none⟩, ⟨"expression_sentence", none, none, none⟩,
          ⟨"simple_access", some "IO", some ⟨0, 0⟩, some "IO"⟩,
          ⟨"method_call", some "out_int", some ⟨0, 0⟩, some "void"⟩,
          ⟨"simple_access", some "1", some ⟨0, 0⟩, some "literal Int"⟩]] := by
    decide +kernel
  have hok : printingProgram.analyze.isOk = true := by decide +kernel
  obtain ⟨A, hA⟩ := exists_of_isOk hok
  obtain ⟨t, hrun, hshown⟩ := AstSnapshot.listing_bodies.2.2 printingProgram A hA
  rw [hA] at hlisting
  exact ⟨A, t, hA, hrun, hshown, Option.some.inj hlisting⟩

end StructLang
