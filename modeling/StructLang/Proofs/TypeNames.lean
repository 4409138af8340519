import Mathlib.Data.List.TakeWhile
import StructLang.Proofs.Records

/-!
# Names of types

A struct is declared under a name, and a member is declared with the name of its type.
`Builtin.isReserved` lists the names that no declaration of a struct may use, and `Ty.ofName` reads
the name of a type.  They are two accounts of the names with a meaning of their own, and they do not
agree: the list has `Array Int` as it is written in messages, while the reader takes the element
name with blanks around it as well, and it takes `void`, which is not in the list.

* `Text.trim_eq_iff` says what trimming leaves, and `Primitive.SpellsArray` which names are read as
  a type of arrays.  `Ty.ofName_eq_struct_iff` puts together when a name stands for its own struct.
* `declarableName_iff`: a struct can be declared under every name that is not reserved.
* `names_struct_iff_plainName`: a name under which a struct can be declared stands for this struct
  in every declaration of a member, unless it is `void` or read as a type of arrays.
  `unnameableCalls` are accepted calls that declare structs with such names.
-/

namespace StructLang

/-! ## Trimmed texts -/

namespace Text

variable {before after word cs : List Char}

theorem exists_eq_append_trim (cs : List Char) :
    ∃ before after, (∀ c ∈ before, isBlank c = true) ∧ (∀ c ∈ after, isBlank c = true) ∧
      cs = before ++ trim cs ++ after := by
  refine ⟨cs.takeWhile isBlank, ((cs.dropWhile isBlank).reverse.takeWhile isBlank).reverse,
    fun c hc => List.mem_takeWhile_imp hc, fun c hc => ?_, ?_⟩
  · exact List.mem_takeWhile_imp (List.mem_reverse.1 hc)
  · unfold trim
    rw [List.append_assoc, ← List.reverse_append, List.takeWhile_append_dropWhile,
      List.reverse_reverse, List.takeWhile_append_dropWhile]

/-- A text without blanks has none at its front. -/
theorem dropWhile_isBlank_of_word (hword : ∀ c ∈ word, isBlank c = false) :
    word.dropWhile isBlank = word := by
  cases word with
  | nil => rfl
  | cons c cs => rw [List.dropWhile_cons_of_neg (by simp [hword c List.mem_cons_self])]

theorem trim_append_word (hbefore : ∀ c ∈ before, isBlank c = true)
    (hafter : ∀ c ∈ after, isBlank c = true) (hword : ∀ c ∈ word, isBlank c = false) :
    trim (before ++ word ++ after) = word := by
  have hback : (after.reverse ++ word.reverse).dropWhile isBlank = word.reverse := by
    rw [List.dropWhile_append_of_pos fun c hc => hafter c (List.mem_reverse.1 hc)]
    exact dropWhile_isBlank_of_word fun c hc => hword c (List.mem_reverse.1 hc)
  unfold trim
  rw [List.append_assoc, List.dropWhile_append_of_pos hbefore]
  cases word with
  | nil =>
    have hnone : after.dropWhile isBlank = [] := List.dropWhile_eq_nil_iff.2 hafter
    rw [List.nil_append, hnone]
    rfl
  | cons c cs =>
    have hfront : (c :: cs ++ after).dropWhile isBlank = c :: cs ++ after :=
      List.dropWhile_cons_of_neg (by simp [hword c List.mem_cons_self])
    rw [hfront, List.reverse_append, hback, List.reverse_reverse]

/-- What trimming leaves is a given word if the text is the word between blanks. -/
theorem trim_eq_iff (hword : ∀ c ∈ word, isBlank c = false) :
    trim cs = word ↔ ∃ before after, (∀ c ∈ before, isBlank c = true) ∧
      (∀ c ∈ after, isBlank c = true) ∧ cs = before ++ word ++ after := by
  refine ⟨fun h => h ▸ exists_eq_append_trim cs, fun h => ?_⟩
  obtain ⟨before, after, hbefore, hafter, rfl⟩ := h
  exact trim_append_word hbefore hafter hword

end Text

/-! ## What a name stands for -/

namespace Primitive

variable {p : Primitive} {name : String}

theorem ofName?_eq_some_iff : ofName? name = some p ↔ name = p.name := by
  refine ⟨fun h => ?_, fun h => ?_⟩
  · unfold ofName? at h
    split at h
    all_goals cases h
    all_goals rfl
  · rw [h]
    cases p <;> rfl

/-- A name that is read as the arrays of an element type: the word `Array`, a space, and the name of
the element type with any blanks around it. -/
def SpellsArray (p : Primitive) (name : String) : Prop :=
  ∃ before after, (∀ c ∈ before, Text.isBlank c = true) ∧ (∀ c ∈ after, Text.isBlank c = true) ∧
    name.toList = "Array ".toList ++ (before ++ p.name.toList ++ after)

theorem not_isBlank_of_mem_name (p : Primitive) :
    ∀ c ∈ p.name.toList, Text.isBlank c = false := by
  have hall : p.name.toList.all (!Text.isBlank ·) = true := by cases p <;> decide
  intro c hc
  simpa using List.all_eq_true.1 hall c hc

end Primitive

namespace Ty

variable {p : Primitive} {name : String}

theorem arrayElement?_eq_some_iff : arrayElement? name = some p ↔ p.SpellsArray name := by
  have helement (element : List Char) :
      Primitive.ofName? (String.ofList (Text.trim element)) = some p ↔
        ∃ before after, (∀ c ∈ before, Text.isBlank c = true) ∧
          (∀ c ∈ after, Text.isBlank c = true) ∧ element = before ++ p.name.toList ++ after := by
    rw [Primitive.ofName?_eq_some_iff, ← Text.trim_eq_iff p.not_isBlank_of_mem_name,
      ← String.toList_inj, String.toList_ofList]
  unfold arrayElement? Primitive.SpellsArray
  split
  · next element hname =>
    rw [helement, hname]
    show _ ↔ ∃ before after, _ ∧ _ ∧ "Array ".toList ++ element = _
    simp only [List.append_cancel_left_eq]
  · next hnot =>
    refine ⟨fun h => ?_, fun h => ?_⟩
    · cases h
    · obtain ⟨before, after, _, _, hname⟩ := h
      exact absurd hname (hnot _)

/-- A name stands for the struct of this name unless it has a meaning of its own. -/
theorem ofName_eq_struct_iff : ofName name = .struct name ↔
    name ≠ "void" ∧ (∀ p : Primitive, name ≠ p.name) ∧ ∀ p : Primitive, ¬ p.SpellsArray name := by
  have hprim : (∀ p : Primitive, name ≠ p.name) ↔ Primitive.ofName? name = none := by
    simp only [← Primitive.ofName?_eq_some_iff, ne_eq, Option.eq_none_iff_forall_ne_some]
  have harray : (∀ p : Primitive, ¬ p.SpellsArray name) ↔ arrayElement? name = none := by
    simp only [← arrayElement?_eq_some_iff, ne_eq, Option.eq_none_iff_forall_ne_some]
  rw [hprim, harray]
  unfold ofName
  by_cases hvoid : name = "void"
  · simp [hvoid]
  · cases hp : Primitive.ofName? name with
    | some p => simp [hvoid]
    | none => cases ha : arrayElement? name <;> simp [hvoid]

end Ty

/-! ## The type that a call declares -/

/-- The token of the type that a call gives to what it declares.  A constructor and the start method
have none. -/
def Call.typeToken? : Call → Option Token
  | method _ .onInstance returnType | method _ .static returnType => returnType
  | param _ type | var _ type _ => some type
  | method _ .constructor _ | method _ .start _ | struct _ _ _ | close => none

/-- The type that a record holds. -/
def Record.ty : Record → Ty
  | method _ _ _ returnType _ => returnType
  | attr a => a.ty
  | binding b => b.ty

/-- The record that a call adds has the type that its type token names. -/
theorem Call.ty_of_addition? {t : SymbolTable} {call : Call} {type : Token} {site : Site}
    {record : Record} (htype : call.typeToken? = some type)
    (hadd : call.addition? t = some (site, record)) : record.ty = Ty.ofName type.lexeme := by
  cases call with
  | struct | close => cases htype
  | method token kind returnType =>
    cases kind with
    | start | constructor => cases htype
    | onInstance | static =>
      obtain ⟨owner, _, hrecord⟩ := Option.map_eq_some_iff.1 hadd
      cases htype
      cases hrecord
      rfl
  | param token type' =>
    obtain ⟨m, _, hrecord⟩ := Option.map_eq_some_iff.1 hadd
    cases htype
    cases hrecord
    rfl
  | var token type' isPrivate =>
    cases htype
    cases hscope : t.scope with
    | struct owner =>
      simp only [addition?, hscope] at hadd
      cases hadd
      rfl
    | closed | start | constructor owner | method owner name =>
      simp only [addition?, hscope] at hadd
      obtain ⟨m, _, hrecord⟩ := Option.map_eq_some_iff.1 hadd
      cases hrecord
      rfl

theorem Call.declaresMember_of_typeToken? {call : Call} {type : Token}
    (htype : call.typeToken? = some type) : call.declaresMember = true := by
  cases call with
  | struct | close => cases htype
  | method | param | var => rfl

/-! ## Structs and their names -/

namespace SymbolTable

variable {name : String}

theorem succeeds_declareStruct_iff {t : SymbolTable} {token : Token} {parent : Option Token}
    {form : Form} :
    succeeds (declareStruct token parent form) t = true ↔
      t.structRefusal? token (parentToken form parent) form = none ∧
        (t.place token (parentToken form parent) form).isCyclic token.lexeme = false := by
  unfold succeeds
  rw [run_declareStruct]
  cases t.structRefusal? token (parentToken form parent) form with
  | some refusal => simp
  | none =>
    cases hcycle : (t.place token (parentToken form parent) form).isCyclic token.lexeme <;>
      simp [hcycle]

/-- Some calls lead to a table without a struct of this name, which accepts a declaration of one. -/
def DeclarableName (name : String) : Prop :=
  ∃ calls token parent form, token.lexeme = name ∧ (declared calls).contains name = false ∧
    succeeds (declareStruct token parent form) (declared calls) = true

/-- The reserved names are all that a declaration of a new struct has to avoid. -/
theorem declarableName_iff : DeclarableName name ↔ Builtin.isReserved name = false := by
  refine ⟨fun h => ?_, fun h => ?_⟩
  · obtain ⟨calls, token, parent, form, rfl, _, hsucceeds⟩ := h
    exact (structRefusal?_eq_none_iff.1 (succeeds_declareStruct_iff.1 hsucceeds).1).1
  · have hnew : new.struct? name = none :=
      NameMap.contains_eq_false_iff.1 (Builtin.contains_eq_false_of_not_reserved h)
    have hextends :
        (new.place (.builtin .structId name) none .structural).Extends name Builtin.root := by
      unfold Extends
      rw [parent?_place (fun p hp => by cases hp) (List.forall_mem_nil _), orphans_new]
      simp [Token.builtin, home]
    refine ⟨[], .builtin .structId name, none, .structural, rfl,
      contains_eq_false_iff_struct?.2 hnew, succeeds_declareStruct_iff.2 ⟨?_, ?_⟩⟩
    · refine structRefusal?_eq_none_iff.2 ⟨h, fun s hs => ?_, fun p hp => by cases hp⟩
      cases hnew.symm.trans hs
    · exact isCyclic_of_extends_root hextends

/-- A name that is not `void` and is not read as a type of arrays. -/
def PlainName (name : String) : Prop :=
  name ≠ "void" ∧ ∀ p : Primitive, ¬ p.SpellsArray name

theorem ofName_eq_struct_iff_plainName (hfree : Builtin.isReserved name = false) :
    Ty.ofName name = .struct name ↔ PlainName name := by
  have hprim : ∀ p : Primitive, name ≠ p.name := by
    intro p heq
    rw [heq] at hfree
    cases p <;> cases hfree
  rw [Ty.ofName_eq_struct_iff, and_iff_right hprim, PlainName]

/-- A name under which a struct can be declared stands for this struct exactly if it is plain, and
then the struct is the type of every member that is declared with the name. -/
theorem names_struct_iff_plainName (hname : DeclarableName name) :
    (Ty.ofName name = .struct name ↔ PlainName name) ∧
      ∀ calls (call : Call) (type : Token) t, call.typeToken? = some type → type.lexeme = name →
        call.run.run (declared calls) = .ok () t →
        ∃ site record, (declared calls).Adds t site record ∧
          (record.ty = .struct name ↔ PlainName name) := by
  have hplain := ofName_eq_struct_iff_plainName (declarableName_iff.1 hname)
  refine ⟨hplain, fun calls call type t htype hlexeme hrun => ?_⟩
  obtain ⟨site, record, hadd, hadds⟩ :=
    adds_call (sound_declared calls) (Call.declaresMember_of_typeToken? htype) hrun
  refine ⟨site, record, hadds, ?_⟩
  rw [Call.ty_of_addition? htype hadd, hlexeme]
  exact hplain

/-- The name `Array Point` is plain, since no arrays have a struct as their elements. -/
theorem names_arrayPoint :
    let calls : List Call := [.struct (.builtin .structId "A") none .structural]
    let call : Call := .var (.builtin .objectId "x") (.builtin .structId "Array Point") false
    DeclarableName "Array Point" ∧ PlainName "Array Point" ∧
      ∃ t site record, call.run.run (declared calls) = .ok () t ∧
        (declared calls).Adds t site record ∧ record.ty = .struct "Array Point" := by
  intro calls call
  have hname : DeclarableName "Array Point" := declarableName_iff.2 (by decide)
  have hrun := run_of_succeeds (x := call.run) (s := declared calls) (by decide +kernel)
  obtain ⟨hstruct, hrecords⟩ := names_struct_iff_plainName hname
  have hplain : PlainName "Array Point" := hstruct.1 (by decide)
  obtain ⟨site, record, hadds, hty⟩ := hrecords calls call _ _ rfl rfl hrun
  exact ⟨hname, hplain, _, site, record, hrun, hadds, hty.2 hplain⟩

/-- Structs named `void` and `Array  Int`, with two spaces, and attributes whose types have these
names. -/
def unnameableCalls : List Call :=
  let name (s : String) (line : UInt32) : Token := ⟨.objectId, s, line, 5⟩
  let type (s : String) (line : UInt32) : Token := ⟨.structId, s, line, 8⟩
  [.struct (type "void" 1) none .structural, .struct (type "Array  Int" 2) none .structural,
    .var (name "x" 3) (type "void" 3) false, .var (name "y" 4) (type "Array  Int" 4) false]

/-- All calls are accepted, and the attributes do not have the declared structs as their types. -/
theorem types_of_unnameableCalls :
    succeeds (unnameableCalls.forM Call.run) new = true ∧
      (declared unnameableCalls).contains "void" = true ∧
      (declared unnameableCalls).contains "Array  Int" = true ∧
      ((declared unnameableCalls).attributeAt? "Array  Int" "x").map (·.ty) = some .void ∧
      ((declared unnameableCalls).attributeAt? "Array  Int" "y").map (·.ty) =
        some (.array .int) := by
  decide +kernel

end SymbolTable

end StructLang
