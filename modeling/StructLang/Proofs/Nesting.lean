import StructLang.Json.Decoder
import StructLang.Program.Document

/-!
# How deep documents nest

`Json.nesting` counts the containers that a value opens one inside the other.  A decoder that
succeeds has opened that many at most: `Bounds decode encode least` says that the document of
whatever `decode` reads nests no deeper than the budget, or than `least` where the document spells
out what the reader takes by default.

For expressions, sentences and blocks the budget alone is the bound, since what they leave out is
written without a container (`Expression.nesting_of_decode`, `Sentence.nesting_of_decode`).  An item
may leave out a whole block, so the bound of items and programs has a least value.
-/

namespace StructLang

namespace Json

mutual

/-- How many containers a value opens one inside the other. -/
def nesting : Json → Nat
  | arr items => nestingOfItems items + 1
  | obj members => nestingOfMembers members + 1
  | null | bool _ | nat _ | str _ | foreign => 0

/-- The deepest nesting among the elements of an array. -/
def nestingOfItems : List Json → Nat
  | [] => 0
  | v :: rest => max v.nesting (nestingOfItems rest)

/-- The deepest nesting among the members of an object. -/
def nestingOfMembers : List (String × Json) → Nat
  | [] => 0
  | (_, v) :: rest => max v.nesting (nestingOfMembers rest)

end

variable {α : Type}

theorem nestingOfItems_le {items : List Json} {n : Nat} :
    nestingOfItems items ≤ n ↔ ∀ v ∈ items, v.nesting ≤ n := by
  induction items with
  | nil => simp [nestingOfItems]
  | cons v items ih => rw [nestingOfItems, Nat.max_le, ih, List.forall_mem_cons]

theorem nesting_ofList_le {encode : α → Json} {xs : List α} {n : Nat} :
    (ofList encode xs).nesting ≤ n + 1 ↔ ∀ x ∈ xs, (encode x).nesting ≤ n := by
  rw [ofList, nesting, Nat.add_le_add_iff_right, nestingOfItems_le, List.forall_mem_map]

/-! ## What a decoder has read -/

theorem Cell.exists_of_required {decode : Json → Option α} {c : Cell} {a : α}
    (h : c.required decode = some a) : ∃ v, decode v = some a := by
  cases c with
  | given v => exact ⟨v, h⟩
  | omitted | cut => cases h

theorem Cell.exists_of_withDefault {decode : Json → Option α} {c : Cell} {default a : α}
    (h : c.withDefault default decode = some a) : a = default ∨ ∃ v, decode v = some a := by
  cases c with
  | given v => exact .inr ⟨v, h⟩
  | omitted | cut => exact .inl (Option.some.inj h).symm

theorem exists_of_orNull {decode : Json → Option α} {v : Json} {o : Option α}
    (h : orNull decode v = some o) : o = none ∨ ∃ a, o = some a ∧ decode v = some a := by
  unfold orNull at h
  split at h
  · exact .inl (Option.some.inj h).symm
  · obtain ⟨a, ha, rfl⟩ := Option.map_eq_some_iff.1 h
    exact .inr ⟨a, rfl, ha⟩

/-- A value that is `null` by default is missing or has been read. -/
theorem Cell.exists_of_withDefault_orNull {decode : Json → Option α} {c : Cell} {o : Option α}
    (h : c.withDefault none (orNull decode) = some o) :
    o = none ∨ ∃ a v, o = some a ∧ decode v = some a := by
  rcases exists_of_withDefault h with rfl | ⟨v, hv⟩
  · exact .inl rfl
  · exact (exists_of_orNull hv).imp_right fun ⟨a, ho, ha⟩ => ⟨a, v, ho, ha⟩

theorem forall_of_mapM {decode : Json → Option α} {p : α → Prop}
    (hp : ∀ v a, decode v = some a → p a) {items : List Json} {as : List α}
    (h : items.mapM decode = some as) : ∀ a ∈ as, p a := by
  induction items generalizing as with
  | nil =>
    cases h
    simp
  | cons v items ih =>
    rw [List.mapM_cons] at h
    obtain ⟨a, ha, h⟩ := Option.bind_eq_some_iff.1 h
    obtain ⟨rest, hrest, h⟩ := Option.bind_eq_some_iff.1 h
    cases h
    exact List.forall_mem_cons.2 ⟨hp v a ha, ih hrest⟩

/-- The document of what `decode` reads nests no deeper than the budget, or than `least`. -/
def Bounds (decode : Decoder α) (encode : α → Json) (least : Nat) : Prop :=
  ∀ ⦃budget v a⦄, decode budget v = some a → (encode a).nesting ≤ max budget least

theorem Bounds.list {decode : Decoder α} {encode : α → Json} {least : Nat}
    (h : Bounds decode encode least) : Bounds (.list decode) (.ofList encode) (least + 1) := by
  intro budget v as has
  unfold Decoder.list at has
  split at has
  · next budget items =>
    rw [Nat.succ_eq_add_one, Nat.add_max_add_right, nesting_ofList_le]
    exact forall_of_mapM (fun _ _ ha => h ha) has
  · cases has

/-- A record is read with one container less. -/
theorem exists_of_record {names : List String} {build : Nat → List Cell → Option α} {budget : Nat}
    {v : Json} {a : α} (h : record names build budget v = some a) :
    ∃ rest cells, budget = rest + 1 ∧ build rest cells = some a := by
  cases budget with
  | zero => cases h
  | succ rest =>
    obtain ⟨cells, _, hbuild⟩ := Option.bind_eq_some_iff.1 h
    exact ⟨rest, cells, rfl, hbuild⟩

end Json

open Json

/-! ## Expressions -/

@[simp] theorem Token.nesting_toJson (token : Token) : token.toJson.nesting = 1 := rfl

variable {α : Type}

theorem Expression.nesting_allToJson_le {es : List (Expression α)} {n : Nat} :
    nestingOfItems (Expression.allToJson es) ≤ n ↔ ∀ e ∈ es, e.toJson.nesting ≤ n := by
  induction es with
  | nil => simp [Expression.allToJson, nestingOfItems]
  | cons e es ih =>
    rw [Expression.allToJson, nestingOfItems, Nat.max_le, ih, List.forall_mem_cons]

theorem Link.nesting_toJson (link : Link α) (rest : Json) :
    (link.toJson rest).nesting = max 1 (max link.action.toJson.nesting rest.nesting) + 1 := by
  obtain ⟨token, action, result⟩ := link
  simp only [Link.toJson, nesting, nestingOfMembers, Token.nesting_toJson]
  omega

theorem Token.pos_of_decode {budget : Nat} {v : Json} {token : Token}
    (h : Token.decode budget v = some token) : 1 ≤ budget := by
  cases budget with
  | zero => cases h
  | succ budget => omega

mutual

/-- The document of an expression that is read within a budget nests no deeper than the budget. -/
theorem Expression.nesting_of_decode : ∀ {budget : Nat} {v : Json} {e : Expression Unit},
    Expression.decode budget v = some e → e.toJson.nesting ≤ budget
  | 0, _, _, h => by
    rw [Expression.decode] at h
    cases h
  | budget + 1, v, e, h => by
    rw [Expression.decode] at h
    split at h
    · obtain ⟨chain, hchain, rfl⟩ := Option.map_eq_some_iff.1 h
      have hle := Chain.nesting_of_decode hchain
      simp only [Expression.toJson, nesting, nestingOfMembers]
      omega
    · exact Expression.nesting_of_decodeUnary h
    · exact Expression.nesting_of_decodeBinary h
    · cases h

theorem Expression.nesting_of_decodeUnary : ∀ {budget : Nat} {v : Json} {e : Expression Unit},
    Expression.decodeUnary budget v = some e → e.toJson.nesting ≤ budget + 1
  | 0, _, _, h => by
    rw [Expression.decodeUnary] at h
    cases h
  | budget + 1, v, e, h => by
    rw [Expression.decodeUnary] at h
    split at h
    · simp only [Option.bind_eq_bind, Option.bind_eq_some_iff] at h
      obtain ⟨operator, hoperator, operand, hoperand, heq⟩ := h
      cases heq
      obtain ⟨_, hoperator⟩ := Cell.exists_of_required hoperator
      obtain ⟨_, hoperand⟩ := Cell.exists_of_required hoperand
      have hpos := Token.pos_of_decode hoperator
      have hle := Chain.nesting_of_decode hoperand
      simp only [Expression.toJson, nesting, nestingOfMembers, Token.nesting_toJson]
      omega
    · cases h

theorem Expression.nesting_of_decodeBinary : ∀ {budget : Nat} {v : Json} {e : Expression Unit},
    Expression.decodeBinary budget v = some e → e.toJson.nesting ≤ budget + 1
  | 0, _, _, h => by
    rw [Expression.decodeBinary] at h
    cases h
  | budget + 1, v, e, h => by
    rw [Expression.decodeBinary] at h
    split at h
    · simp only [Option.bind_eq_bind, Option.bind_eq_some_iff] at h
      obtain ⟨left, hleft, operator, hoperator, right, hright, heq⟩ := h
      cases heq
      obtain ⟨_, hleft⟩ := Cell.exists_of_required hleft
      obtain ⟨_, hoperator⟩ := Cell.exists_of_required hoperator
      obtain ⟨_, hright⟩ := Cell.exists_of_required hright
      have hpos := Token.pos_of_decode hoperator
      have hleftLe := Expression.nesting_of_decode hleft
      have hrightLe := Expression.nesting_of_decode hright
      simp only [Expression.toJson, nesting, nestingOfMembers, Token.nesting_toJson]
      omega
    · cases h

theorem Chain.nesting_of_decode : ∀ {budget : Nat} {v : Json} {chain : Chain Unit},
    Chain.decode budget v = some chain → chain.toJson.nesting ≤ budget
  | 0, _, _, h => by
    rw [Chain.decode] at h
    cases h
  | budget + 1, v, chain, h => by
    rw [Chain.decode] at h
    split at h
    · simp only [Option.bind_eq_bind, Option.bind_eq_some_iff] at h
      obtain ⟨token, htoken, action, haction, next, hnext, heq⟩ := h
      cases heq
      obtain ⟨_, htoken⟩ := Cell.exists_of_required htoken
      have hpos := Token.pos_of_decode htoken
      have hactionLe : action.toJson.nesting ≤ budget := by
        rcases Cell.exists_of_withDefault haction with rfl | ⟨_, haction⟩
        · exact Nat.zero_le _
        · exact Action.nesting_of_decode haction
      rcases Cell.exists_of_withDefault_orNull hnext with rfl | ⟨⟨head, rest⟩, _, rfl, hrest⟩
      · simp only [Chain.toJson, Link.nesting_toJson, Link.restToJson, nesting]
        omega
      · have hrestLe := Chain.nesting_of_decode hrest
        simp only [Chain.toJson, Link.nesting_toJson, Link.restToJson] at hrestLe ⊢
        omega
    · cases h

theorem Action.nesting_of_decode : ∀ {budget : Nat} {v : Json} {action : Action Unit},
    Action.decode budget v = some action → action.toJson.nesting ≤ budget
  | 0, v, action, h => by
    rw [Action.decode.eq_def] at h
    split at h
    · cases h
      exact Nat.zero_le _
    · cases h
    · next heq _ => cases heq
  | budget + 1, v, action, h => by
    rw [Action.decode.eq_def] at h
    split at h
    · cases h
      exact Nat.zero_le _
    · next heq _ => cases heq
    · next heq _ =>
      cases heq
      split at h
      · cases h
        exact Nat.zero_le _
      · obtain ⟨args, hargs, rfl⟩ := Option.map_eq_some_iff.1 h
        have hle := Expression.nesting_of_decodeArguments hargs
        simp only [Action.toJson, nesting, nestingOfMembers]
        omega
      · obtain ⟨position, hposition, rfl⟩ := Option.map_eq_some_iff.1 h
        have hle := Expression.nesting_of_decodeField hposition
        simp only [Action.toJson, nesting, nestingOfMembers]
        omega
      · obtain ⟨args, hargs, rfl⟩ := Option.map_eq_some_iff.1 h
        have hle := Expression.nesting_of_decodeArguments hargs
        simp only [Action.toJson, nesting, nestingOfMembers]
        omega
      · obtain ⟨dimension, hdimension, rfl⟩ := Option.map_eq_some_iff.1 h
        have hle := Expression.nesting_of_decodeField hdimension
        simp only [Action.toJson, nesting, nestingOfMembers]
        omega
      · obtain ⟨inner, hinner, rfl⟩ := Option.map_eq_some_iff.1 h
        have hle := Expression.nesting_of_decodeField hinner
        simp only [Action.toJson, nesting, nestingOfMembers]
        omega
      · cases h

theorem Expression.nesting_of_decodeField {name : String} :
    ∀ {budget : Nat} {v : Json} {e : Expression Unit},
      Expression.decodeField name budget v = some e → e.toJson.nesting + 1 ≤ budget
  | 0, _, _, h => by
    rw [Expression.decodeField] at h
    cases h
  | budget + 1, v, e, h => by
    rw [Expression.decodeField] at h
    split at h
    · obtain ⟨_, h⟩ := Cell.exists_of_required h
      exact Nat.succ_le_succ (Expression.nesting_of_decode h)
    · cases h

theorem Expression.nesting_of_decodeArguments :
    ∀ {budget : Nat} {v : Json} {args : List (Expression Unit)},
      Expression.decodeArguments budget v = some args →
        nestingOfItems (Expression.allToJson args) + 2 ≤ budget
  | 0, _, _, h => by
    rw [Expression.decodeArguments] at h
    cases h
  | budget + 1, v, args, h => by
    rw [Expression.decodeArguments] at h
    split at h
    · obtain ⟨_, h⟩ := Cell.exists_of_required h
      exact Nat.succ_le_succ (Expression.nesting_of_decodeList h)
    · cases h

theorem Expression.nesting_of_decodeList :
    ∀ {budget : Nat} {v : Json} {es : List (Expression Unit)},
      Expression.decodeList budget v = some es →
        nestingOfItems (Expression.allToJson es) + 1 ≤ budget
  | 0, v, _, h => by
    cases v <;> · rw [Expression.decodeList] at h <;> cases h
  | budget + 1, v, es, h => by
    cases v
    case arr items =>
      rw [Expression.decodeList] at h
      refine Nat.succ_le_succ (Expression.nesting_allToJson_le.2 ?_)
      exact forall_of_mapM (fun _ _ => Expression.nesting_of_decode) h
    all_goals cases h

end

/-! ## Sentences -/

theorem Sentence.nesting_allToJson_le {ss : List (Sentence α)} {n : Nat} :
    nestingOfItems (Sentence.allToJson ss) ≤ n ↔ ∀ s ∈ ss, s.toJson.nesting ≤ n := by
  induction ss with
  | nil => simp [Sentence.allToJson, nestingOfItems]
  | cons s ss ih =>
    rw [Sentence.allToJson, nestingOfItems, Nat.max_le, ih, List.forall_mem_cons]

mutual

/-- The document of a sentence that is read within a budget nests no deeper than the budget. -/
theorem Sentence.nesting_of_decode : ∀ {budget : Nat} {v : Json} {s : Sentence Unit},
    Sentence.decode budget v = some s → s.toJson.nesting ≤ budget
  | 0, _, _, h => by
    rw [Sentence.decode] at h
    cases h
  | budget + 1, v, s, h => by
    rw [Sentence.decode] at h
    split at h
    · obtain ⟨b, hb, rfl⟩ := Option.map_eq_some_iff.1 h
      have hle := Block.nesting_of_decode hb
      simp only [Block.toJson, Sentence.toJson, nesting, nestingOfMembers] at hle ⊢
      omega
    · exact Sentence.nesting_of_decodeConditional h
    · exact Sentence.nesting_of_decodeLoop h
    · exact Sentence.nesting_of_decodeAssignment h
    · exact Sentence.nesting_of_decodeReturn h
    · obtain ⟨e, he, rfl⟩ := Option.map_eq_some_iff.1 h
      have hle := Expression.nesting_of_decode he
      simp only [Sentence.toJson, nesting, nestingOfMembers]
      omega
    · cases h

theorem Sentence.nesting_of_decodeConditional : ∀ {budget : Nat} {v : Json} {s : Sentence Unit},
    Sentence.decodeConditional budget v = some s → s.toJson.nesting ≤ budget + 1
  | 0, _, _, h => by
    rw [Sentence.decodeConditional] at h
    cases h
  | budget + 1, v, s, h => by
    rw [Sentence.decodeConditional] at h
    split at h
    · simp only [Option.bind_eq_bind, Option.bind_eq_some_iff] at h
      obtain ⟨token, htoken, condition, hcondition, thenBranch, hthen, elseBranch, helse, heq⟩ := h
      cases heq
      obtain ⟨_, htoken⟩ := Cell.exists_of_required htoken
      obtain ⟨_, hcondition⟩ := Cell.exists_of_required hcondition
      obtain ⟨_, hthen⟩ := Cell.exists_of_required hthen
      have hpos := Token.pos_of_decode htoken
      have hconditionLe := Expression.nesting_of_decode hcondition
      have hthenLe := Sentence.nesting_of_decode hthen
      rcases Cell.exists_of_withDefault_orNull helse with rfl | ⟨otherwise, _, rfl, hotherwise⟩
      · simp only [Sentence.toJson, nesting, nestingOfMembers, Token.nesting_toJson]
        omega
      · have helseLe := Sentence.nesting_of_decode hotherwise
        simp only [Sentence.toJson, nesting, nestingOfMembers, Token.nesting_toJson]
        omega
    · cases h

theorem Sentence.nesting_of_decodeLoop : ∀ {budget : Nat} {v : Json} {s : Sentence Unit},
    Sentence.decodeLoop budget v = some s → s.toJson.nesting ≤ budget + 1
  | 0, _, _, h => by
    rw [Sentence.decodeLoop] at h
    cases h
  | budget + 1, v, s, h => by
    rw [Sentence.decodeLoop] at h
    split at h
    · simp only [Option.bind_eq_bind, Option.bind_eq_some_iff] at h
      obtain ⟨token, htoken, condition, hcondition, body, hbody, heq⟩ := h
      cases heq
      obtain ⟨_, htoken⟩ := Cell.exists_of_required htoken
      obtain ⟨_, hcondition⟩ := Cell.exists_of_required hcondition
      obtain ⟨_, hbody⟩ := Cell.exists_of_required hbody
      have hpos := Token.pos_of_decode htoken
      have hconditionLe := Expression.nesting_of_decode hcondition
      have hbodyLe := Sentence.nesting_of_decode hbody
      simp only [Sentence.toJson, nesting, nestingOfMembers, Token.nesting_toJson]
      omega
    · cases h

theorem Sentence.nesting_of_decodeAssignment : ∀ {budget : Nat} {v : Json} {s : Sentence Unit},
    Sentence.decodeAssignment budget v = some s → s.toJson.nesting ≤ budget + 1
  | 0, _, _, h => by
    rw [Sentence.decodeAssignment] at h
    cases h
  | budget + 1, v, s, h => by
    rw [Sentence.decodeAssignment] at h
    split at h
    · simp only [Option.bind_eq_bind, Option.bind_eq_some_iff] at h
      obtain ⟨target, htarget, token, htoken, value, hvalue, heq⟩ := h
      cases heq
      obtain ⟨_, htarget⟩ := Cell.exists_of_required htarget
      obtain ⟨_, htoken⟩ := Cell.exists_of_required htoken
      obtain ⟨_, hvalue⟩ := Cell.exists_of_required hvalue
      have hpos := Token.pos_of_decode htoken
      have htargetLe := Chain.nesting_of_decode htarget
      have hvalueLe := Expression.nesting_of_decode hvalue
      simp only [Sentence.toJson, nesting, nestingOfMembers, Token.nesting_toJson]
      omega
    · cases h

theorem Sentence.nesting_of_decodeReturn : ∀ {budget : Nat} {v : Json} {s : Sentence Unit},
    Sentence.decodeReturn budget v = some s → s.toJson.nesting ≤ budget + 1
  | 0, _, _, h => by
    rw [Sentence.decodeReturn] at h
    cases h
  | budget + 1, v, s, h => by
    rw [Sentence.decodeReturn] at h
    split at h
    · simp only [Option.bind_eq_bind, Option.bind_eq_some_iff] at h
      obtain ⟨token, htoken, value, hvalue, heq⟩ := h
      cases heq
      obtain ⟨_, htoken⟩ := Cell.exists_of_required htoken
      have hpos := Token.pos_of_decode htoken
      rcases Cell.exists_of_withDefault_orNull hvalue with rfl | ⟨e, _, rfl, he⟩
      · simp only [Sentence.toJson, Json.ofOption, nesting, nestingOfMembers, Token.nesting_toJson]
        omega
      · have hle := Expression.nesting_of_decode he
        simp only [Sentence.toJson, Json.ofOption, nesting, nestingOfMembers, Token.nesting_toJson]
        omega
    · cases h

theorem Block.nesting_of_decode : ∀ {budget : Nat} {v : Json} {b : Block Unit},
    Block.decode budget v = some b → (Block.toJson b).nesting ≤ budget
  | 0, _, _, h => by
    rw [Block.decode] at h
    cases h
  | budget + 1, v, b, h => by
    rw [Block.decode] at h
    split at h
    · obtain ⟨_, h⟩ := Cell.exists_of_required h
      have hle := Block.nesting_of_decodeList h
      simp only [Block.toJson, nesting, nestingOfMembers]
      omega
    · cases h

theorem Block.nesting_of_decodeList : ∀ {budget : Nat} {v : Json} {b : Block Unit},
    Block.decodeList budget v = some b → nestingOfItems (Sentence.allToJson b) + 1 ≤ budget
  | 0, v, _, h => by
    cases v <;> · rw [Block.decodeList] at h <;> cases h
  | budget + 1, v, b, h => by
    cases v
    case arr items =>
      rw [Block.decodeList] at h
      refine Nat.succ_le_succ (Sentence.nesting_allToJson_le.2 ?_)
      exact forall_of_mapM (fun _ _ => Sentence.nesting_of_decode) h
    all_goals cases h

end

/-! ## Items -/

theorem Token.nesting_ofOption_le (token : Option Token) :
    (Json.ofOption Token.toJson token).nesting ≤ 1 := by
  cases token with
  | none => exact Nat.zero_le _
  | some token => exact Nat.le_refl _

theorem VarDef.nesting_listToJson_le (ds : List VarDef) :
    (Json.ofList VarDef.toJson ds).nesting ≤ 3 :=
  nesting_ofList_le.2 fun _ _ => Nat.le_refl 2

theorem StructDef.nesting_toJson_le (d : StructDef) : d.toJson.nesting ≤ 4 := by
  have hparent := Token.nesting_ofOption_le d.parent
  have hattributes : (Json.ofList AttrDef.toJson d.attributes).nesting ≤ 3 :=
    nesting_ofList_le.2 fun _ _ => Nat.le_refl 2
  simp only [StructDef.toJson, nesting, nestingOfMembers, Token.nesting_toJson]
  omega

/-- A block that is left out is empty, and its document opens two containers. -/
theorem Block.nesting_of_withDefault {budget : Nat} {c : Cell} {b : Block Unit}
    (h : c.withDefault [] (Block.decode budget) = some b) :
    (Block.toJson b).nesting ≤ max budget 2 := by
  rcases Cell.exists_of_withDefault h with rfl | ⟨_, hb⟩
  · exact Nat.le_max_right _ _
  · exact Nat.le_trans (Block.nesting_of_decode hb) (Nat.le_max_left _ _)

theorem MethodDef.bounds : Bounds MethodDef.decode MethodDef.toJson 4 := by
  intro budget v d hread
  obtain ⟨budget, cells, rfl, h⟩ := exists_of_record hread
  split at h
  · simp only [Option.bind_eq_bind, Option.bind_eq_some_iff] at h
    obtain ⟨name, _, kind, _, params, _, returnType, _, locals, _, body, hbody, heq⟩ := h
    cases heq
    have hparams := VarDef.nesting_listToJson_le params
    have hreturn := Token.nesting_ofOption_le returnType
    have hlocals := VarDef.nesting_listToJson_le locals
    have hbodyLe := Block.nesting_of_withDefault hbody
    simp only [MethodDef.toJson, nesting, nestingOfMembers, Token.nesting_toJson]
    omega
  · cases h

theorem ImplDef.bounds : Bounds ImplDef.decode ImplDef.toJson 6 := by
  intro budget v d hread
  obtain ⟨budget, cells, rfl, h⟩ := exists_of_record hread
  split at h
  · simp only [Option.bind_eq_bind, Option.bind_eq_some_iff] at h
    obtain ⟨name, _, methods, hmethods, heq⟩ := h
    cases heq
    have hle : (Json.ofList MethodDef.toJson methods).nesting ≤ max budget 5 := by
      rcases Cell.exists_of_withDefault hmethods with rfl | ⟨_, hmethods⟩
      · exact Nat.le_trans (Nat.le_add_left 1 4) (Nat.le_max_right _ _)
      · exact MethodDef.bounds.list hmethods
    simp only [ImplDef.toJson, nesting, nestingOfMembers, Token.nesting_toJson]
    omega
  · cases h

theorem StartDef.bounds : Bounds StartDef.decode StartDef.toJson 4 := by
  intro budget v d hread
  obtain ⟨budget, cells, rfl, h⟩ := exists_of_record hread
  split at h
  · simp only [Option.bind_eq_bind, Option.bind_eq_some_iff] at h
    obtain ⟨token, _, locals, _, body, hbody, heq⟩ := h
    cases heq
    have hlocals := VarDef.nesting_listToJson_le locals
    have hbodyLe := Block.nesting_of_withDefault hbody
    simp only [StartDef.toJson, nesting, nestingOfMembers, Token.nesting_toJson]
    omega
  · cases h

theorem Item.bounds : Bounds Item.decode Item.toJson 7 := by
  intro budget v item h
  cases budget with
  | zero => cases h
  | succ budget =>
    rw [Item.decode] at h
    split at h
    · obtain ⟨d, _, rfl⟩ := Option.map_eq_some_iff.1 h
      have hle := d.nesting_toJson_le
      simp only [Item.toJson, nesting, nestingOfMembers]
      omega
    · obtain ⟨d, hd, rfl⟩ := Option.map_eq_some_iff.1 h
      have hle := ImplDef.bounds hd
      simp only [Item.toJson, nesting, nestingOfMembers]
      omega
    · obtain ⟨d, hd, rfl⟩ := Option.map_eq_some_iff.1 h
      have hle := StartDef.bounds hd
      simp only [Item.toJson, nesting, nestingOfMembers]
      omega
    · cases h

theorem Program.bounds : Bounds Program.decode Program.toJson 9 := by
  intro budget v p hread
  obtain ⟨budget, cells, rfl, h⟩ := exists_of_record hread
  split at h
  · simp only [Option.bind_eq_bind, Option.bind_eq_some_iff] at h
    obtain ⟨items, hitems, heq⟩ := h
    cases heq
    obtain ⟨_, hitems⟩ := Cell.exists_of_required hitems
    have hle := Item.bounds.list hitems
    simp only [Program.toJson, nesting, nestingOfMembers]
    omega
  · cases h

/-- The document of a program that a text holds keeps the limit on nesting. -/
theorem Program.nesting_of_parse? {text : String} {p : Program} (h : Program.parse? text = some p) :
    p.toJson.nesting ≤ nestingLimit := by
  obtain ⟨v, _, hv⟩ := Option.bind_eq_some_iff.1 h
  exact Program.bounds hv

end StructLang
