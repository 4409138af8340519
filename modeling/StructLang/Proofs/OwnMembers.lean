import StructLang.Proofs.Merge

/-!
# The members that a struct declares

Before the members of its parent are merged into it, a struct holds the members that it declares:
`OwnMembers` says that they are numbered in the order of their declaration, that the struct is their
owner, and that no attribute is marked as inherited.  Every declaration of a member keeps this, and
so does a change of the struct's place in the tree.
-/

namespace StructLang

/-- A struct without its place in the tree. -/
def Struct.detached (s : Struct) : Struct := { s with parent := none, children := .empty }

/-- The members of a struct are its own: it is their owner, and the constructor is apart. -/
structure Struct.OwnMembers (s : Struct) (ms : List Method) (as : List Attr) : Prop where
  laid : s.Laid ms as
  methods : ∀ m ∈ ms, m.owner = some s.name ∧ m.kind ≠ .constructor ∧ m.kind ≠ .start
  attributes : ∀ a ∈ as, a.owner = s.name ∧ a.inherited = false
  constructor : ∀ m, s.constructor = some m →
    m.owner = some s.name ∧ m.kind = .constructor ∧ m.returnType = .void ∧ m.slot = 0

namespace Struct

variable {s s' : Struct} {ms : List Method} {as : List Attr}

/-- Structs that agree apart from their places. -/
theorem detached_eq_iff :
    s'.detached = s.detached ↔ ∃ p cs, s' = { s with parent := p, children := cs } := by
  constructor
  · intro h
    refine ⟨s'.parent, s'.children, ?_⟩
    obtain ⟨⟩ := s
    obtain ⟨⟩ := s'
    simp only [detached, mk.injEq] at h ⊢
    simp [h]
  · rintro ⟨p, cs, rfl⟩
    rfl

/-- Own members do not depend on the place of a struct in the tree. -/
theorem OwnMembers.of_detached (h : s.OwnMembers ms as) (heq : s'.detached = s.detached) :
    s'.OwnMembers ms as := by
  obtain ⟨p, cs, rfl⟩ := detached_eq_iff.1 heq
  exact ⟨⟨h.laid.1, h.laid.2, h.laid.3, h.laid.4⟩, h.methods, h.attributes, h.constructor⟩

theorem ownMembers_declare (token : Token) (parent : Option String) :
    (declare token parent).OwnMembers [] [] where
  laid := ⟨.empty, .empty, rfl, rfl⟩
  methods m hm := by cases hm
  attributes a ha := by cases ha
  constructor m hm := by cases hm

theorem addMethod_eq_ok {token : Token} {kind : MethodKind} {ty : Ty} :
    s.addMethod token kind ty = .ok s' ↔
      (kind = .constructor ∧ s.constructor = none ∧
        s' = { s with constructor := some (.declare token (some s.name) kind .void 0) }) ∨
      (kind ≠ .constructor ∧ s.methods.contains token.lexeme = false ∧
        s' = { s with
          methods := s.methods.insert token.lexeme
            (.declare token (some s.name) kind ty s.nextMethodSlot)
          nextMethodSlot := s.nextMethodSlot + 1 }) := by
  rw [addMethod]
  by_cases hkind : kind = .constructor
  · cases hctor : s.constructor <;> simp [hkind, @eq_comm _ s']
  · cases hcontains : s.methods.contains token.lexeme <;> simp [hkind, @eq_comm _ s']

theorem addAttribute_eq_ok {token : Token} {ty : Ty} {isPrivate : Bool} :
    s.addAttribute token ty isPrivate = .ok s' ↔
      s.attributes.contains token.lexeme = false ∧
        s' = { s with
          attributes := s.attributes.insert token.lexeme
            (.declare token s.name ty isPrivate s.nextAttributeSlot)
          nextAttributeSlot := s.nextAttributeSlot + 1 } := by
  rw [addAttribute]
  cases hcontains : s.attributes.contains token.lexeme <;> simp [@eq_comm _ s']

/-- A change of the members of a struct. -/
def MembersChange (s s' : Struct) : Prop :=
  ∃ methods attributes constructor nextMethodSlot nextAttributeSlot,
    s' = { s with methods, attributes, constructor, nextMethodSlot, nextAttributeSlot }

theorem membersChange_addMethod {token : Token} {kind : MethodKind} {ty : Ty}
    (h : s.addMethod token kind ty = .ok s') : s.MembersChange s' := by
  rcases addMethod_eq_ok.1 h with ⟨_, _, rfl⟩ | ⟨_, _, rfl⟩ <;> exact ⟨_, _, _, _, _, rfl⟩

theorem membersChange_addAttribute {token : Token} {ty : Ty} {isPrivate : Bool}
    (h : s.addAttribute token ty isPrivate = .ok s') : s.MembersChange s' := by
  obtain ⟨_, rfl⟩ := addAttribute_eq_ok.1 h
  exact ⟨_, _, _, _, _, rfl⟩

namespace OwnMembers

theorem recordForm (h : s.OwnMembers ms as) (form : Form) :
    (s.recordForm form).OwnMembers ms as := by
  cases form <;>
    exact ⟨⟨h.laid.1, h.laid.2, h.laid.3, h.laid.4⟩, h.methods, h.attributes, h.constructor⟩

/-- The constructor may be another one. -/
theorem setConstructor (h : s.OwnMembers ms as) {m : Method}
    (hm : m.owner = some s.name ∧ m.kind = .constructor ∧ m.returnType = .void ∧ m.slot = 0) :
    { s with constructor := some m }.OwnMembers ms as := by
  refine ⟨⟨h.laid.1, h.laid.2, h.laid.3, h.laid.4⟩, h.methods, h.attributes, ?_⟩
  rintro m ⟨⟩
  exact hm

/-- A new method goes to the end. -/
theorem pushMethod (h : s.OwnMembers ms as) {m : Method}
    (hnew : s.methods.contains m.name = false) (howner : m.owner = some s.name)
    (hkind : m.kind ≠ .constructor ∧ m.kind ≠ .start) (hslot : m.slot = s.nextMethodSlot) :
    { s with methods := s.methods.insert m.name m, nextMethodSlot := s.nextMethodSlot + 1
      }.OwnMembers (ms ++ [m]) as := by
  refine ⟨⟨?_, h.laid.2, ?_, h.laid.4⟩, fun c hc => ?_, h.attributes, h.constructor⟩
  · exact h.laid.methods.push (NameMap.contains_eq_false_iff.1 hnew)
      (hslot.trans h.laid.nextMethodSlot)
  · rw [List.length_append, ← h.laid.nextMethodSlot]
    rfl
  · rcases List.mem_append.1 hc with hc | hc
    · exact h.methods c hc
    · rw [List.mem_singleton.1 hc]
      exact ⟨howner, hkind⟩

/-- The methods after a declaration: a method goes to the end, and a constructor is apart. -/
theorem addMethod (h : s.OwnMembers ms as) {token : Token} {kind : MethodKind} {ty : Ty}
    (hkind : kind ≠ .start) (hadd : s.addMethod token kind ty = .ok s') :
    s'.OwnMembers (if kind = .constructor then ms
      else ms ++ [.declare token (some s.name) kind ty s.nextMethodSlot]) as := by
  rcases addMethod_eq_ok.1 hadd with ⟨hctor, _, rfl⟩ | ⟨hctor, hnew, rfl⟩
  · rw [if_pos hctor]
    exact h.setConstructor ⟨rfl, hctor, rfl, rfl⟩
  · rw [if_neg hctor]
    exact h.pushMethod (m := .declare token (some s.name) kind ty s.nextMethodSlot) hnew rfl
      ⟨hctor, hkind⟩ rfl

theorem addAttribute (h : s.OwnMembers ms as) {token : Token} {ty : Ty} {isPrivate : Bool}
    (hadd : s.addAttribute token ty isPrivate = .ok s') :
    s'.OwnMembers ms (as ++ [.declare token s.name ty isPrivate s.nextAttributeSlot]) := by
  obtain ⟨hnew, rfl⟩ := addAttribute_eq_ok.1 hadd
  refine ⟨⟨h.laid.1, ?_, h.laid.3, ?_⟩, h.methods, fun a ha => ?_, h.constructor⟩
  · exact h.laid.attributes.push (a := .declare token s.name ty isPrivate s.nextAttributeSlot)
      (NameMap.contains_eq_false_iff.1 hnew) h.laid.nextAttributeSlot
  · rw [List.length_append, ← h.laid.nextAttributeSlot]
    rfl
  · rcases List.mem_append.1 ha with ha | ha
    · exact h.attributes a ha
    · rw [List.mem_singleton.1 ha]
      exact ⟨rfl, rfl⟩

/-- A method may get parameters and locals. -/
theorem setMethod (h : s.OwnMembers ms as) {name : String} {m : Method}
    (params locals : List Binding) (hm : s.methods.get? name = some m) :
    { s with methods := s.methods.insert name { m with params, locals } }.OwnMembers
      (ms.map fun c : Method => if c.name = name then { m with params, locals } else c) as := by
  obtain ⟨hmem, rfl⟩ := (h.laid.methods.get?_iff name m).1 hm
  refine ⟨⟨h.laid.methods.replace hmem rfl rfl, h.laid.2, ?_, h.laid.4⟩, fun c hc => ?_,
    h.attributes, h.constructor⟩
  · rw [List.length_map]
    exact h.laid.nextMethodSlot
  · obtain ⟨d, hd, rfl⟩ := List.mem_map.1 hc
    split
    · exact h.methods m hmem
    · exact h.methods d hd

end OwnMembers

end Struct

/-- A parameter or a local variable leaves the rest of a method as it is. -/
theorem Method.extends_of_add {m m' : Method} {token : Token} {ty : Ty}
    (h : m.addParam token ty = .ok m' ∨ m.addLocal token ty = .ok m') :
    ∃ params locals, m' = { m with params, locals } := by
  rw [addParam, addLocal] at h
  rcases h with h | h
  · split at h <;> cases h
    exact ⟨_, _, rfl⟩
  · split at h <;> cases h
    exact ⟨_, _, rfl⟩

end StructLang
