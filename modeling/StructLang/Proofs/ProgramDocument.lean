import StructLang.Proofs.ProgramForm

/-!
# Programs read back

A program that some text holds is read from each of its documents, whatever the order of the keys and
whatever fields are left out.  Two facts meet here.

* A document of a program is read as the program wherever the document with all fields would fit
  (`…decode_of_written`).  The recursion is over the program, and every container of the document
  takes one from the budget.
* The document with all fields of a program that was read fits (`Program.nesting_of_parse?`): a text
  may write a record as an array or leave out fields, but none of this saves a container in the deep
  parts of a program.
-/

namespace StructLang

namespace Json

theorem Inverts.read {α : Type} {decode : Decoder α} {encode : α → Json}
    (h : Inverts decode encode 0) (a : α) (budget : Nat) :
    ∀ v, v = encode a → decode budget v = some a := by
  rintro _ rfl
  exact h a budget (Nat.zero_le _)

end Json

open Json

/-! ## Tokens -/

theorem TokenKind.mem_all (kind : TokenKind) : kind ∈ all := by
  cases kind <;> exact List.mem_of_elem_eq_true rfl

theorem TokenKind.ofName?_name (kind : TokenKind) : TokenKind.ofName? kind.name = some kind := by
  have hall : ∀ kind ∈ all, ofName? kind.name = some kind := by decide +kernel
  exact hall kind kind.mem_all

theorem TokenKind.inverts : Inverts TokenKind.decode (fun kind => .str kind.name) 0 :=
  inverts_tag TokenKind.ofName?_name

theorem Token.decode_of_written {t : Token} {v : Json} {budget : Nat} (h : t.Written v)
    (hpos : 1 ≤ budget) : Token.decode budget v = some t := by
  obtain ⟨budget, rfl⟩ : ∃ rest, budget = rest + 1 := ⟨budget - 1, by omega⟩
  refine record_of_written h rfl (by decide) fun cells hcells => ?_
  rcases hcells with _ | ⟨hkind, _ | ⟨hlexeme, _ | ⟨hline, _ | ⟨hcolumn, _ | _⟩⟩⟩⟩
  dsimp only
  rw [hkind.required (TokenKind.inverts.read t.kind budget),
    hlexeme.required (inverts_string.read t.lexeme budget),
    hline.required (inverts_word32.read t.line budget),
    hcolumn.required (inverts_word32.read t.column budget)]
  rfl

/-! ## Expressions -/

/-- The chain of links, if there are any. -/
def Chain.ofLinks? : List (Link Unit) → Option (Chain Unit)
  | [] => none
  | link :: rest => some ⟨link, rest⟩

theorem Link.Written.ne_null {form : Json → Prop} {last : Prop} {link : Link Unit} {v : Json}
    (h : link.Written form last v) : v ≠ .null := by
  obtain ⟨token, action, _⟩ := link
  exact ObjectOf.ne_null h

/-- A record with one field is read, if the field is. -/
theorem Expression.decodeField_of_written {name : String} {form : Json → Prop} {e : Expression Unit}
    {v : Json} {budget : Nat} (h : ObjectOf [.always name form] v)
    (hread : ∀ w, form w → Expression.decode budget w = some e) :
    Expression.decodeField name (budget + 1) v = some e := by
  obtain ⟨cells, hfields, hcells⟩ := h.exists_cells [name] rfl (List.nodup_singleton name)
  rcases hcells with _ | ⟨hinner, _ | _⟩
  rw [Expression.decodeField, hfields]
  exact hinner.required hread

/-- The arguments of a call are read, if each of them is. -/
theorem Expression.decodeArguments_of_written {elements : List Json → Prop}
    {args : List (Expression Unit)} {v : Json} {budget : Nat}
    (h : ObjectOf [.always "args" (ArrayOf elements)] v)
    (hread : ∀ items, elements items → items.mapM (Expression.decode budget) = some args) :
    Expression.decodeArguments (budget + 2) v = some args := by
  obtain ⟨cells, hfields, hcells⟩ := h.exists_cells ["args"] rfl (by decide)
  rcases hcells with _ | ⟨hargs, _ | _⟩
  rw [Expression.decodeArguments, hfields]
  refine hargs.required ?_
  rintro _ ⟨items, hitems, rfl⟩
  exact hread items hitems

mutual

/-- An expression is read from each of its documents. -/
theorem Expression.decode_of_written : ∀ {e : Expression Unit} {v : Json} {budget : Nat},
    e.Written v → e.toJson.nesting ≤ budget → Expression.decode budget v = some e
  | .access chain, _, budget, ⟨w, hw, rfl⟩, hle => by
    simp only [Expression.toJson, nesting, nestingOfMembers] at hle
    obtain ⟨budget, rfl⟩ : ∃ rest, budget = rest + 1 := ⟨budget - 1, by omega⟩
    have hchain : Chain.decode budget w = some chain := Chain.decode_of_written hw (by omega)
    show (Chain.decode budget w).map Expression.access = _
    rw [hchain, Option.map_some]
  | .unary operator operand _, _, budget, ⟨w, hw, rfl⟩, hle => by
    simp only [Expression.toJson, nesting, nestingOfMembers, Token.nesting_toJson] at hle
    obtain ⟨budget, rfl⟩ : ∃ rest, budget = rest + 2 := ⟨budget - 2, by omega⟩
    obtain ⟨cells, hfields, hcells⟩ := hw.exists_cells ["operator", "operand"] rfl (by decide)
    rcases hcells with _ | ⟨hoperator, _ | ⟨hoperand, _ | _⟩⟩
    show Expression.decodeUnary (budget + 1) w = _
    rw [Expression.decodeUnary, hfields]
    dsimp only
    rw [hoperator.required fun _ hv => Token.decode_of_written hv (by omega),
      hoperand.required fun _ hv => Chain.decode_of_written hv (by omega)]
    rfl
  | .binary left operator right _, _, budget, ⟨w, hw, rfl⟩, hle => by
    simp only [Expression.toJson, nesting, nestingOfMembers, Token.nesting_toJson] at hle
    obtain ⟨budget, rfl⟩ : ∃ rest, budget = rest + 2 := ⟨budget - 2, by omega⟩
    obtain ⟨cells, hfields, hcells⟩ := hw.exists_cells ["left", "operator", "right"] rfl (by decide)
    rcases hcells with _ | ⟨hleft, _ | ⟨hoperator, _ | ⟨hright, _ | _⟩⟩⟩
    show Expression.decodeBinary (budget + 1) w = _
    rw [Expression.decodeBinary, hfields]
    dsimp only
    rw [hleft.required fun _ hv => Expression.decode_of_written hv (by omega),
      hoperator.required fun _ hv => Token.decode_of_written hv (by omega),
      hright.required fun _ hv => Expression.decode_of_written hv (by omega)]
    rfl

theorem Chain.decode_of_written : ∀ {chain : Chain Unit} {v : Json} {budget : Nat},
    chain.Written v → chain.toJson.nesting ≤ budget → Chain.decode budget v = some chain
  | ⟨head, rest⟩, _, budget, h, hle => by
    rw [Chain.toJson, Link.nesting_toJson] at hle
    obtain ⟨budget, rfl⟩ : ∃ below, budget = below + 1 := ⟨budget - 1, by omega⟩
    exact Link.decode_of_written h (by omega) (by omega)
      fun _ hw => Link.decode_of_restWritten hw (by omega)

/-- The links after one are read from each of their documents. -/
theorem Link.decode_of_restWritten : ∀ {links : List (Link Unit)} {v : Json} {budget : Nat},
    Link.RestWritten links v → (Link.restToJson links).nesting ≤ budget →
      orNull (Chain.decode budget) v = some (Chain.ofLinks? links)
  | [], _, _, rfl, _ => rfl
  | link :: rest, v, budget, h, hle => by
    rw [Link.restToJson, Link.nesting_toJson] at hle
    obtain ⟨budget, rfl⟩ : ∃ below, budget = below + 1 := ⟨budget - 1, by omega⟩
    have hread : Chain.decode (budget + 1) v = some ⟨link, rest⟩ :=
      Link.decode_of_written h (by omega) (by omega)
        fun _ hw => Link.decode_of_restWritten hw (by omega)
    rw [orNull_of_ne_null (Link.Written.ne_null h), hread]
    rfl

/-- A link is read with the links after it, if these are. -/
theorem Link.decode_of_written : ∀ {link : Link Unit} {rest : List (Link Unit)}
    {form : Json → Prop} {v : Json} {budget : Nat},
    link.Written form (rest = []) v → 1 ≤ budget → link.action.toJson.nesting ≤ budget →
      (∀ w, form w → orNull (Chain.decode budget) w = some (Chain.ofLinks? rest)) →
      Chain.decode (budget + 1) v = some ⟨link, rest⟩
  | ⟨token, action, _⟩, rest, form, v, budget, h, hpos, hle, hrest => by
    obtain ⟨cells, hfields, hcells⟩ :=
      ObjectOf.exists_cells h ["token", "kind", "chain"] rfl (by decide)
    rcases hcells with _ | ⟨htoken, _ | ⟨hkind, _ | ⟨hchain, _ | _⟩⟩⟩
    have hnone : rest = [] → Chain.ofLinks? rest = none := by
      rintro rfl
      rfl
    rw [Chain.decode, hfields]
    dsimp only
    rw [htoken.required fun _ hv => Token.decode_of_written hv hpos,
      hkind.withDefault (fun _ hv => Action.decode_of_written hv hle) id,
      hchain.withDefault hrest hnone]
    cases rest <;> rfl

theorem Action.decode_of_written : ∀ {action : Action Unit} {v : Json} {budget : Nat},
    action.Written v → action.toJson.nesting ≤ budget → Action.decode budget v = some action
  | .simple, _, budget, rfl, _ => by rw [Action.decode]
  | .call args, _, budget, ⟨w, hw, rfl⟩, hle => by
    simp only [Action.toJson, nesting, nestingOfMembers] at hle
    obtain ⟨budget, rfl⟩ : ∃ rest, budget = rest + 3 := ⟨budget - 3, by omega⟩
    show (Expression.decodeArguments (budget + 2) w).map Action.call = _
    rw [Expression.decodeArguments_of_written hw fun _ hv =>
      Expression.mapM_decode_of_written hv (by omega), Option.map_some]
  | .index position, _, budget, ⟨w, hw, rfl⟩, hle => by
    simp only [Action.toJson, nesting, nestingOfMembers] at hle
    obtain ⟨budget, rfl⟩ : ∃ rest, budget = rest + 2 := ⟨budget - 2, by omega⟩
    show (Expression.decodeField "index" (budget + 1) w).map Action.index = _
    rw [Expression.decodeField_of_written hw fun _ hv =>
      Expression.decode_of_written hv (by omega), Option.map_some]
  | .newInstance args, _, budget, ⟨w, hw, rfl⟩, hle => by
    simp only [Action.toJson, nesting, nestingOfMembers] at hle
    obtain ⟨budget, rfl⟩ : ∃ rest, budget = rest + 3 := ⟨budget - 3, by omega⟩
    show (Expression.decodeArguments (budget + 2) w).map Action.newInstance = _
    rw [Expression.decodeArguments_of_written hw fun _ hv =>
      Expression.mapM_decode_of_written hv (by omega), Option.map_some]
  | .newArray dimension, _, budget, ⟨w, hw, rfl⟩, hle => by
    simp only [Action.toJson, nesting, nestingOfMembers] at hle
    obtain ⟨budget, rfl⟩ : ∃ rest, budget = rest + 2 := ⟨budget - 2, by omega⟩
    show (Expression.decodeField "dimension" (budget + 1) w).map Action.newArray = _
    rw [Expression.decodeField_of_written hw fun _ hv =>
      Expression.decode_of_written hv (by omega), Option.map_some]
  | .group inner, _, budget, ⟨w, hw, rfl⟩, hle => by
    simp only [Action.toJson, nesting, nestingOfMembers] at hle
    obtain ⟨budget, rfl⟩ : ∃ rest, budget = rest + 2 := ⟨budget - 2, by omega⟩
    show (Expression.decodeField "expression" (budget + 1) w).map Action.group = _
    rw [Expression.decodeField_of_written hw fun _ hv =>
      Expression.decode_of_written hv (by omega), Option.map_some]

theorem Expression.mapM_decode_of_written :
    ∀ {es : List (Expression Unit)} {items : List Json} {budget : Nat},
      Expression.AllWritten es items → nestingOfItems (Expression.allToJson es) ≤ budget →
        items.mapM (Expression.decode budget) = some es
  | [], _, _, rfl, _ => rfl
  | e :: rest, _, budget, ⟨first, others, hfirst, hothers, rfl⟩, hle => by
    rw [Expression.allToJson, nestingOfItems, Nat.max_le] at hle
    rw [List.mapM_cons, Expression.decode_of_written hfirst hle.1,
      Expression.mapM_decode_of_written hothers hle.2]
    rfl

end

/-! ## Sentences -/

theorem Expression.Written.ne_null {e : Expression Unit} {v : Json} (h : e.Written v) :
    v ≠ .null := by
  cases e <;> exact VariantOf.ne_null h

theorem Sentence.Written.ne_null {s : Sentence Unit} {v : Json} (h : s.Written v) : v ≠ .null := by
  cases s
  case conditional token condition thenBranch elseBranch =>
    cases elseBranch <;> exact VariantOf.ne_null h
  all_goals exact VariantOf.ne_null h

/-- A block is read, if each of its sentences is. -/
theorem Block.decode_of_elements {elements : List Json → Prop} {b : Block Unit} {v : Json}
    {budget : Nat} (h : ObjectOf [.always "sentences" (ArrayOf elements)] v)
    (hread : ∀ items, elements items → items.mapM (Sentence.decode budget) = some b) :
    Block.decode (budget + 2) v = some b := by
  obtain ⟨cells, hfields, hcells⟩ := h.exists_cells ["sentences"] rfl (by decide)
  rcases hcells with _ | ⟨hsentences, _ | _⟩
  rw [Block.decode, hfields]
  refine hsentences.required ?_
  rintro _ ⟨items, hitems, rfl⟩
  exact hread items hitems

/-- The contents of a conditional are read, if its branches are. -/
theorem Sentence.decodeConditional_of_written {token : Token} {condition : Expression Unit}
    {thenBranch : Sentence Unit} {elseBranch : Option (Sentence Unit)}
    {thenForm elseForm : Json → Prop} {v : Json} {budget : Nat}
    (h : ObjectOf [.always "token" token.Written, .always "condition" condition.Written,
      .always "then_branch" thenForm, ⟨"else_branch", elseForm, elseBranch = none⟩] v)
    (hpos : 1 ≤ budget) (hcondition : condition.toJson.nesting ≤ budget)
    (hthen : ∀ w, thenForm w → Sentence.decode budget w = some thenBranch)
    (helse : ∀ w, elseForm w → orNull (Sentence.decode budget) w = some elseBranch) :
    Sentence.decodeConditional (budget + 1) v =
      some (.conditional token condition thenBranch elseBranch) := by
  obtain ⟨cells, hfields, hcells⟩ :=
    h.exists_cells ["token", "condition", "then_branch", "else_branch"] rfl (by decide)
  rcases hcells with _ | ⟨htoken, _ | ⟨hcond, _ | ⟨hfirst, _ | ⟨hsecond, _ | _⟩⟩⟩⟩
  rw [Sentence.decodeConditional, hfields]
  dsimp only
  rw [htoken.required fun _ hw => Token.decode_of_written hw hpos,
    hcond.required fun _ hw => Expression.decode_of_written hw hcondition,
    hfirst.required hthen, hsecond.withDefault helse id]
  rfl

mutual

/-- A sentence is read from each of its documents. -/
theorem Sentence.decode_of_written : ∀ {s : Sentence Unit} {v : Json} {budget : Nat},
    s.Written v → s.toJson.nesting ≤ budget → Sentence.decode budget v = some s
  | .block sentences, _, budget, ⟨w, hw, rfl⟩, hle => by
    simp only [Sentence.toJson, nesting, nestingOfMembers] at hle
    obtain ⟨budget, rfl⟩ : ∃ rest, budget = rest + 3 := ⟨budget - 3, by omega⟩
    show (Block.decode (budget + 2) w).map Sentence.block = _
    rw [Block.decode_of_elements hw fun _ hv => Sentence.mapM_decode_of_written hv (by omega),
      Option.map_some]
  | .conditional token condition thenBranch none, _, budget, ⟨w, hw, rfl⟩, hle => by
    simp only [Sentence.toJson, nesting, nestingOfMembers, Token.nesting_toJson] at hle
    obtain ⟨budget, rfl⟩ : ∃ rest, budget = rest + 2 := ⟨budget - 2, by omega⟩
    show Sentence.decodeConditional (budget + 1) w = _
    refine Sentence.decodeConditional_of_written hw (by omega) (by omega) ?_ ?_
    · exact fun _ hv => Sentence.decode_of_written hv (by omega)
    · rintro _ rfl
      rfl
  | .conditional token condition thenBranch (some otherwise), _, budget, ⟨w, hw, rfl⟩, hle => by
    simp only [Sentence.toJson, nesting, nestingOfMembers, Token.nesting_toJson] at hle
    obtain ⟨budget, rfl⟩ : ∃ rest, budget = rest + 2 := ⟨budget - 2, by omega⟩
    show Sentence.decodeConditional (budget + 1) w = _
    refine Sentence.decodeConditional_of_written hw (by omega) (by omega) ?_ ?_
    · exact fun _ hv => Sentence.decode_of_written hv (by omega)
    · intro v hv
      have hread : Sentence.decode budget v = some otherwise :=
        Sentence.decode_of_written hv (by omega)
      rw [orNull_of_ne_null (Sentence.Written.ne_null hv), hread, Option.map_some]
  | .loop token condition body, _, budget, ⟨w, hw, rfl⟩, hle => by
    simp only [Sentence.toJson, nesting, nestingOfMembers, Token.nesting_toJson] at hle
    obtain ⟨budget, rfl⟩ : ∃ rest, budget = rest + 2 := ⟨budget - 2, by omega⟩
    obtain ⟨cells, hfields, hcells⟩ :=
      hw.exists_cells ["token", "condition", "body"] rfl (by decide)
    rcases hcells with _ | ⟨htoken, _ | ⟨hcondition, _ | ⟨hbody, _ | _⟩⟩⟩
    show Sentence.decodeLoop (budget + 1) w = _
    rw [Sentence.decodeLoop, hfields]
    dsimp only
    rw [htoken.required fun _ hv => Token.decode_of_written hv (by omega),
      hcondition.required fun _ hv => Expression.decode_of_written hv (by omega),
      hbody.required fun _ hv => Sentence.decode_of_written hv (by omega)]
    rfl
  | .assignment target token value, _, budget, ⟨w, hw, rfl⟩, hle => by
    simp only [Sentence.toJson, nesting, nestingOfMembers, Token.nesting_toJson] at hle
    obtain ⟨budget, rfl⟩ : ∃ rest, budget = rest + 2 := ⟨budget - 2, by omega⟩
    obtain ⟨cells, hfields, hcells⟩ := hw.exists_cells ["target", "token", "value"] rfl (by decide)
    rcases hcells with _ | ⟨htarget, _ | ⟨htoken, _ | ⟨hvalue, _ | _⟩⟩⟩
    show Sentence.decodeAssignment (budget + 1) w = _
    rw [Sentence.decodeAssignment, hfields]
    dsimp only
    rw [htarget.required fun _ hv => Chain.decode_of_written hv (by omega),
      htoken.required fun _ hv => Token.decode_of_written hv (by omega),
      hvalue.required fun _ hv => Expression.decode_of_written hv (by omega)]
    rfl
  | .giveBack token value, _, budget, ⟨w, hw, rfl⟩, hle => by
    simp only [Sentence.toJson, nesting, nestingOfMembers, Token.nesting_toJson] at hle
    obtain ⟨budget, rfl⟩ : ∃ rest, budget = rest + 2 := ⟨budget - 2, by omega⟩
    obtain ⟨cells, hfields, hcells⟩ := hw.exists_cells ["token", "value"] rfl (by decide)
    rcases hcells with _ | ⟨htoken, _ | ⟨hvalue, _ | _⟩⟩
    have hread : ∀ v, OrNull Expression.Written value v →
        orNull (Expression.decode budget) v = some value := by
      intro v hv
      refine hv.read (fun _ _ he => he.ne_null) ?_
      rintro e rfl he
      rw [Json.ofOption] at hle
      exact Expression.decode_of_written he (by omega)
    show Sentence.decodeReturn (budget + 1) w = _
    rw [Sentence.decodeReturn, hfields]
    dsimp only
    rw [htoken.required fun _ hv => Token.decode_of_written hv (by omega),
      hvalue.withDefault hread id]
    rfl
  | .expression e, _, budget, ⟨w, hw, rfl⟩, hle => by
    simp only [Sentence.toJson, nesting, nestingOfMembers] at hle
    obtain ⟨budget, rfl⟩ : ∃ rest, budget = rest + 1 := ⟨budget - 1, by omega⟩
    have he : Expression.decode budget w = some e := Expression.decode_of_written hw (by omega)
    show (Expression.decode budget w).map Sentence.expression = _
    rw [he, Option.map_some]

theorem Sentence.mapM_decode_of_written :
    ∀ {ss : List (Sentence Unit)} {items : List Json} {budget : Nat},
      Sentence.AllWritten ss items → nestingOfItems (Sentence.allToJson ss) ≤ budget →
        items.mapM (Sentence.decode budget) = some ss
  | [], _, _, rfl, _ => rfl
  | s :: rest, _, budget, ⟨first, others, hfirst, hothers, rfl⟩, hle => by
    rw [Sentence.allToJson, nestingOfItems, Nat.max_le] at hle
    rw [List.mapM_cons, Sentence.decode_of_written hfirst hle.1,
      Sentence.mapM_decode_of_written hothers hle.2]
    rfl

end

theorem Block.nesting_toJson (b : Block Unit) :
    (Block.toJson b).nesting = nestingOfItems (Sentence.allToJson b) + 2 := by
  simp only [Block.toJson, nesting, nestingOfMembers]
  omega

/-- A block is read from each of its documents. -/
theorem Block.decode_of_written {b : Block Unit} {v : Json} {budget : Nat} (h : Block.Written b v)
    (hle : (Block.toJson b).nesting ≤ budget) : Block.decode budget v = some b := by
  rw [Block.nesting_toJson] at hle
  obtain ⟨budget, rfl⟩ : ∃ rest, budget = rest + 2 := ⟨budget - 2, by omega⟩
  exact Block.decode_of_elements h fun _ hv => Sentence.mapM_decode_of_written hv (by omega)

/-! ## Items -/

theorem Token.orNull_of_written {token : Option Token} {v : Json} {budget : Nat}
    (h : OrNull Token.Written token v) (hpos : 1 ≤ budget) :
    orNull (Token.decode budget) v = some token :=
  h.read (fun _ _ ht => ht.ne_null) fun _ _ ht => Token.decode_of_written ht hpos

theorem VarDef.decode_of_written {d : VarDef} {v : Json} {budget : Nat} (h : d.Written v)
    (hle : 2 ≤ budget) : VarDef.decode budget v = some d := by
  obtain ⟨budget, rfl⟩ : ∃ rest, budget = rest + 1 := ⟨budget - 1, by omega⟩
  refine record_of_written h rfl (by decide) fun cells hcells => ?_
  rcases hcells with _ | ⟨hname, _ | ⟨hty, _ | _⟩⟩
  dsimp only
  rw [hname.required fun _ hv => Token.decode_of_written hv (by omega),
    hty.required fun _ hv => Token.decode_of_written hv (by omega)]
  rfl

theorem VarDef.list_of_written {ds : List VarDef} {v : Json} {budget : Nat}
    (h : ArrayOf (List.Forall₂ VarDef.Written ds) v) (hle : 3 ≤ budget) :
    Decoder.list VarDef.decode budget v = some ds := by
  obtain ⟨budget, rfl⟩ : ∃ rest, budget = rest + 1 := ⟨budget - 1, by omega⟩
  exact h.read fun _ _ _ hd => VarDef.decode_of_written hd (by omega)

theorem AttrDef.decode_of_written {d : AttrDef} {v : Json} {budget : Nat} (h : d.Written v)
    (hle : 2 ≤ budget) : AttrDef.decode budget v = some d := by
  obtain ⟨budget, rfl⟩ : ∃ rest, budget = rest + 1 := ⟨budget - 1, by omega⟩
  refine record_of_written h rfl (by decide) fun cells hcells => ?_
  rcases hcells with _ | ⟨hname, _ | ⟨hty, _ | ⟨hprivate, _ | _⟩⟩⟩
  dsimp only
  rw [hname.required fun _ hv => Token.decode_of_written hv (by omega),
    hty.required fun _ hv => Token.decode_of_written hv (by omega),
    hprivate.withDefault (by rintro _ rfl; rfl) id]
  rfl

theorem StructDef.decode_of_written {d : StructDef} {v : Json} {budget : Nat} (h : d.Written v)
    (hle : 4 ≤ budget) : StructDef.decode budget v = some d := by
  obtain ⟨budget, rfl⟩ : ∃ rest, budget = rest + 2 := ⟨budget - 2, by omega⟩
  refine record_of_written h rfl (by decide) fun cells hcells => ?_
  rcases hcells with _ | ⟨hname, _ | ⟨hparent, _ | ⟨hattributes, _ | _⟩⟩⟩
  dsimp only
  rw [hname.required fun _ hv => Token.decode_of_written hv (by omega),
    hparent.withDefault (fun _ hv => Token.orNull_of_written hv (by omega)) id,
    hattributes.withDefault
      (fun _ hv => hv.read fun _ _ _ hd => AttrDef.decode_of_written hd (by omega)) id]
  rfl

theorem MethodDef.decode_of_written {d : MethodDef} {v : Json} {budget : Nat} (h : d.Written v)
    (hle : d.toJson.nesting ≤ budget) (hleast : 4 ≤ budget) :
    MethodDef.decode budget v = some d := by
  obtain ⟨budget, rfl⟩ : ∃ rest, budget = rest + 1 := ⟨budget - 1, by omega⟩
  simp only [MethodDef.toJson, nesting, nestingOfMembers] at hle
  refine record_of_written h rfl (by decide) fun cells hcells => ?_
  rcases hcells with _ | ⟨hname, _ | ⟨hkind, _ | ⟨hparams, _ | ⟨hreturn, _ | ⟨hlocals, _ |
    ⟨hbody, _ | _⟩⟩⟩⟩⟩⟩
  dsimp only
  rw [hname.required fun _ hv => Token.decode_of_written hv (by omega),
    hkind.withDefault (MethodKind.inverts.read d.kind budget) id,
    hparams.withDefault (fun _ hv => VarDef.list_of_written hv (by omega)) id,
    hreturn.withDefault (fun _ hv => Token.orNull_of_written hv (by omega)) id,
    hlocals.withDefault (fun _ hv => VarDef.list_of_written hv (by omega)) id,
    hbody.withDefault (fun _ hv => Block.decode_of_written hv (by omega)) id]
  rfl

theorem ImplDef.decode_of_written {d : ImplDef} {v : Json} {budget : Nat} (h : d.Written v)
    (hle : d.toJson.nesting ≤ budget) (hleast : 6 ≤ budget) : ImplDef.decode budget v = some d := by
  obtain ⟨budget, rfl⟩ : ∃ rest, budget = rest + 2 := ⟨budget - 2, by omega⟩
  simp only [ImplDef.toJson, nesting, nestingOfMembers] at hle
  have hmethodsLe : ∀ m ∈ d.methods, m.toJson.nesting ≤ budget := nesting_ofList_le.1 (by omega)
  refine record_of_written h rfl (by decide) fun cells hcells => ?_
  rcases hcells with _ | ⟨hname, _ | ⟨hmethods, _ | _⟩⟩
  dsimp only
  rw [hname.required fun _ hv => Token.decode_of_written hv (by omega),
    hmethods.withDefault (fun _ hv => hv.read fun m hm _ hd =>
      MethodDef.decode_of_written hd (hmethodsLe m hm) (by omega)) id]
  rfl

theorem StartDef.decode_of_written {d : StartDef} {v : Json} {budget : Nat} (h : d.Written v)
    (hle : d.toJson.nesting ≤ budget) (hleast : 4 ≤ budget) : StartDef.decode budget v = some d := by
  obtain ⟨budget, rfl⟩ : ∃ rest, budget = rest + 1 := ⟨budget - 1, by omega⟩
  simp only [StartDef.toJson, nesting, nestingOfMembers] at hle
  refine record_of_written h rfl (by decide) fun cells hcells => ?_
  rcases hcells with _ | ⟨htoken, _ | ⟨hlocals, _ | ⟨hbody, _ | _⟩⟩⟩
  dsimp only
  rw [htoken.required fun _ hv => Token.decode_of_written hv (by omega),
    hlocals.withDefault (fun _ hv => VarDef.list_of_written hv (by omega)) id,
    hbody.withDefault (fun _ hv => Block.decode_of_written hv (by omega)) id]
  rfl

theorem Item.decode_of_written {item : Item} {v : Json} {budget : Nat} (h : item.Written v)
    (hle : item.toJson.nesting ≤ budget) (hleast : 7 ≤ budget) :
    Item.decode budget v = some item := by
  obtain ⟨budget, rfl⟩ : ∃ rest, budget = rest + 1 := ⟨budget - 1, by omega⟩
  cases item with
  | struct d =>
    obtain ⟨w, hw, rfl⟩ := h
    show (StructDef.decode budget w).map Item.struct = _
    rw [StructDef.decode_of_written hw (by omega), Option.map_some]
  | impl d =>
    obtain ⟨w, hw, rfl⟩ := h
    simp only [Item.toJson, nesting, nestingOfMembers] at hle
    show (ImplDef.decode budget w).map Item.impl = _
    rw [ImplDef.decode_of_written hw (by omega) (by omega), Option.map_some]
  | start d =>
    obtain ⟨w, hw, rfl⟩ := h
    simp only [Item.toJson, nesting, nestingOfMembers] at hle
    show (StartDef.decode budget w).map Item.start = _
    rw [StartDef.decode_of_written hw (by omega) (by omega), Option.map_some]

theorem Program.decode_of_written {p : Program} {v : Json} {budget : Nat} (h : p.Written v)
    (hle : p.toJson.nesting ≤ budget) (hleast : 9 ≤ budget) : Program.decode budget v = some p := by
  obtain ⟨budget, rfl⟩ : ∃ rest, budget = rest + 2 := ⟨budget - 2, by omega⟩
  simp only [Program.toJson, nesting, nestingOfMembers] at hle
  have hitemsLe : ∀ item ∈ p.items, item.toJson.nesting ≤ budget := nesting_ofList_le.1 (by omega)
  refine record_of_written h rfl (by decide) fun cells hcells => ?_
  rcases hcells with _ | ⟨hitems, _ | _⟩
  dsimp only
  rw [hitems.required fun _ hv => hv.read fun item hitem _ hd =>
    Item.decode_of_written hd (hitemsLe item hitem) (by omega)]
  rfl

/-- A text that spells a document of a program is read as the program, if the document with all
fields keeps the limit on nesting. -/
theorem Program.parse?_of_written {p : Program} (hle : p.toJson.nesting ≤ nestingLimit)
    {text : String} {v : Json} (hparse : Json.parse text = some v) (h : p.Written v) :
    Program.parse? text = some p := by
  unfold Program.parse? decodeText
  rw [hparse, Option.bind_some]
  exact Program.decode_of_written h hle (by decide)

/-- A program that some text holds is read back from its document with all fields, and from every
text that spells one of its documents: the keys of every object in any order, and fields that hold
their default left out or not. -/
theorem Program.parse?_documents {text : String} {p : Program} (h : Program.parse? text = some p) :
    p.Written p.toJson ∧ Program.parse? p.toJson.pretty = some p ∧
      ∀ (v : Json) (other : String), p.Written v → Json.parse other = some v →
        Program.parse? other = some p := by
  have hle := Program.nesting_of_parse? h
  refine ⟨p.written_toJson, ?_, ?_⟩
  · exact Program.parse?_of_written hle (parse_pretty _) p.written_toJson
  · intro v other hv hother
    exact Program.parse?_of_written hle hother hv

/-- A body that is one literal. -/
def literalBody : Block Unit :=
  [.expression (.access ⟨⟨⟨.intLiteral, "1", 2, 5⟩, .simple, ()⟩, []⟩)]

/-- A program that is a start block with a literal. -/
def literalStart : Program :=
  ⟨[.start ⟨⟨.startWord, "start", 1, 1⟩, [], literalBody⟩]⟩

/-- The program with all records as arrays, and the action as an object. -/
def literalStartArrays : Json :=
  .arr [.arr [.obj [("start", .arr [.arr [.str "start", .str "start", .nat 1, .nat 1], .arr [],
    .arr [.arr [.obj [("expression", .obj [("primary",
      .arr [.arr [.str "int_lit", .str "1", .nat 2, .nat 5],
        .obj [("simple_access", .null)]])])]]]])]]]

/-- The body without the fields of the literal that hold their defaults. -/
def literalBodyBrief : Json :=
  .obj [("sentences", .arr [.obj [("expression", .obj [("primary",
    .obj [("token", (⟨.intLiteral, "1", 2, 5⟩ : Token).toJson)])])]])]

/-- The program with the body before the token, and nothing written that has a default. -/
def literalStartBrief : Json :=
  .obj [("items", .arr [.obj [("start", .obj [("body", literalBodyBrief),
    ("token", (⟨.startWord, "start", 1, 1⟩ : Token).toJson)])]])]

open Members in
theorem literalBody_written_brief : Block.Written literalBody literalBodyBrief := by
  have hchain : (⟨⟨⟨.intLiteral, "1", 2, 5⟩, .simple, ()⟩, []⟩ : Chain Unit).Written
      (.obj [("token", (⟨.intLiteral, "1", 2, 5⟩ : Token).toJson)]) :=
    (written (Token.written_toJson _) (omitted rfl (omitted rfl nil))).objectOf
  exact (written (arrayOf_arr ⟨_, _, ⟨_, ⟨_, hchain, rfl⟩, rfl⟩, rfl, rfl⟩) nil).objectOf

open Members in
theorem literalStart_written_brief : literalStart.Written literalStartBrief := by
  have hstart : StartDef.Written ⟨⟨.startWord, "start", 1, 1⟩, [], literalBody⟩
      (.obj [("body", literalBodyBrief), ("token", (⟨.startWord, "start", 1, 1⟩ : Token).toJson)]) :=
    ⟨_, _, written (Token.written_toJson _) (omitted rfl (written literalBody_written_brief nil)),
      .swap _ _ _, rfl⟩
  exact (written (arrayOf_arr (.cons ⟨_, hstart, rfl⟩ .nil)) nil).objectOf

theorem parse?_documents_of_literalStart :
    Program.parse? literalStartArrays.pretty = some literalStart ∧
      Program.parse? literalStart.toJson.pretty = some literalStart ∧
      literalStart.Written literalStartBrief ∧
      Program.parse? literalStartBrief.pretty = some literalStart := by
  have harrays : Program.parse? literalStartArrays.pretty = some literalStart := by
    unfold Program.parse? decodeText
    rw [parse_pretty, Option.bind_some]
    rfl
  obtain ⟨_, hfull, hdocuments⟩ := Program.parse?_documents harrays
  exact ⟨harrays, hfull, literalStart_written_brief,
    hdocuments _ _ literalStart_written_brief (parse_pretty _)⟩

end StructLang
