import StructLang.Proofs.Bindings

/-!
# Where declarations land

A table is read here as records at sites: the heading of every method, its parameters and local
variables by their positions, and the attributes of every struct.  A call does not name the struct
or the method that it adds to; it goes to what is open.

* `record?` reads the record at a site.  `Adds` says that one table has one record more than another
  and that nothing else in its structs is different.
* `Call.addition?` says which record a call is to add and where, from the scope and from what the
  open struct or method already holds.
* What is open exists: the open struct is registered, and `MethodOpen` says that the open method is
  in it.  Every step of a declaration keeps this, failed ones included.
* `scope_declared`: the scope is what the accepted calls have opened.  Calls that are refused leave
  it alone.

`placesRecords_declared` puts these together.
-/

namespace StructLang

/-! ## Records and their sites -/

/-- The two lists of bindings of a method. -/
inductive BindingSort where
  | params
  | locals
  deriving DecidableEq

/-- What a method is made of. -/
inductive MethodPart where
  | heading
  | binding (sort : BindingSort) (position : Nat)
  deriving DecidableEq

/-- Where a record of a table stands.  A method is found by the scope that its declaration opens. -/
inductive Site where
  | inMethod (scope : Scope) (part : MethodPart)
  /-- The attribute of a struct with a given name. -/
  | inStruct (struct name : String)
  deriving DecidableEq

/-- What a declaration records. -/
inductive Record where
  | method (token : Token) (owner : Option String) (kind : MethodKind) (returnType : Ty)
      (slot : Nat)
  | attr (a : Attr)
  | binding (b : Binding)
  deriving DecidableEq

/-- Whether a scope stands for a method. -/
def Scope.opensMethod : Scope → Bool
  | start | constructor _ | method _ _ => true
  | closed | struct _ => false

/-- Whether a record at the site takes a slot among the members of a struct. -/
def Site.numbers (n : String) : Site → MemberSort → Bool
  | .inMethod (.method owner _) .heading, .methods => owner == n
  | .inStruct owner _, .attributes => owner == n
  | _, _ => false

namespace Method

variable {m m' : Method} {token : Token} {ty : Ty} {part : MethodPart} {sort : BindingSort}
  {b : Binding}

/-- The parameters or the local variables. -/
def bindings (m : Method) : BindingSort → List Binding
  | .params => m.params
  | .locals => m.locals

/-- The record of a part of a method. -/
def record? (m : Method) : MethodPart → Option Record
  | .heading => some (.method m.token m.owner m.kind m.returnType m.slot)
  | .binding sort position => (m.bindings sort)[position]?.map .binding

/-- A method that has just been declared has a heading and nothing else. -/
theorem record?_declare {owner : Option String} {kind : MethodKind} {slot : Nat}
    (hpart : part ≠ .heading) : (declare token owner kind ty slot).record? part = none := by
  cases part with
  | heading => exact absurd rfl hpart
  | binding sort position => cases sort <;> rfl

/-- One more binding stands after the others, and nothing else is different. -/
structure Pushes (m m' : Method) (sort : BindingSort) (b : Binding) : Prop where
  heading : m'.record? .heading = m.record? .heading
  pushed : m'.bindings sort = m.bindings sort ++ [b]
  others : ∀ other, other ≠ sort → m'.bindings other = m.bindings other

theorem Pushes.record?_eq (h : m.Pushes m' sort b)
    (hpart : part ≠ .binding sort (m.bindings sort).length) : m'.record? part = m.record? part := by
  cases part with
  | heading => exact h.heading
  | binding sort' position =>
    by_cases hsort : sort' = sort
    · subst hsort
      have hposition : position ≠ (m.bindings sort').length := fun heq => hpart (by rw [heq])
      rw [record?, record?, h.pushed]
      rcases Nat.lt_or_gt_of_ne hposition with hlt | hgt
      · rw [List.getElem?_append_left hlt]
      · rw [List.getElem?_eq_none (Nat.le_of_lt hgt), List.getElem?_eq_none]
        rw [List.length_append]
        exact hgt
    · rw [record?, record?, h.others sort' hsort]

theorem pushes_addParam (h : m.addParam token ty = .ok m') : m.Pushes m' .params ⟨token, ty⟩ := by
  rw [addParam] at h
  split at h
  · cases h
  · cases h
    refine ⟨rfl, rfl, fun other hother => ?_⟩
    cases other with
    | params => exact absurd rfl hother
    | locals => rfl

theorem pushes_addLocal (h : m.addLocal token ty = .ok m') : m.Pushes m' .locals ⟨token, ty⟩ := by
  rw [addLocal] at h
  split at h
  · cases h
  · cases h
    refine ⟨rfl, rfl, fun other hother => ?_⟩
    cases other with
    | locals => exact absurd rfl hother
    | params => rfl

theorem addLocal_eq_error {e : SemanticError} (h : m.addLocal token ty = .error e) :
    e.cause = .repeated .localVariable token.lexeme := by
  rw [addLocal] at h
  split at h
  · cases h
    rfl
  · cases h

end Method

namespace Struct

variable {s : Struct}

/-- The struct without its members. -/
def bare (s : Struct) : Struct :=
  { s with
    attributes := .empty, methods := .empty, constructor := none
    nextMethodSlot := 0, nextAttributeSlot := 0 }

/-- The slots of the members, in their order. -/
def slots (s : Struct) : MemberSort → List Nat
  | .methods => s.methodsBySlot.map (·.slot)
  | .attributes => s.attributesBySlot.map (·.slot)

/-- The slot of the next member that the struct declares. -/
def nextSlot (s : Struct) : MemberSort → Nat
  | .methods => s.nextMethodSlot
  | .attributes => s.nextAttributeSlot

/-- The members have the slots from 0 on, and the next member has the slot after them. -/
theorem Laid.slots_eq {ms : List Method} {as : List Attr} (h : s.Laid ms as) (sort : MemberSort) :
    s.slots sort = List.range (s.nextSlot sort) := by
  have hrange {α : Type} {name : α → String} {slot : α → Nat} {m : NameMap α} {l : List α}
      (hlisting : Listing name slot m l) : l.map slot = List.range l.length := by
    refine List.ext_getElem? fun i => ?_
    rw [List.getElem?_map]
    cases hi : l[i]? with
    | none => simpa using hi
    | some a =>
      obtain ⟨hlt, _⟩ := List.getElem?_eq_some_iff.1 hi
      rw [List.getElem?_range hlt, Option.map_some, hlisting.slots i a hi]
  cases sort with
  | methods => rw [slots, h.methodsBySlot_eq, hrange h.methods, nextSlot, h.nextMethodSlot]
  | attributes =>
    rw [slots, h.attributesBySlot_eq, hrange h.attributes, nextSlot, h.nextAttributeSlot]

theorem addAttribute_eq_error {token : Token} {ty : Ty} {isPrivate : Bool} {e : SemanticError}
    (h : s.addAttribute token ty isPrivate = .error e) :
    e.cause = .repeated .ownAttribute token.lexeme := by
  rw [addAttribute] at h
  split at h
  · cases h
    rfl
  · cases h

end Struct

namespace SymbolTable

variable {t t' u : SymbolTable} {site : Site} {record : Record}

/-- The attribute of a struct with a given name. -/
def attributeAt? (t : SymbolTable) (n name : String) : Option Attr :=
  (t.struct? n).bind (·.attributes.get? name)

/-- The record at a site. -/
def record? (t : SymbolTable) : Site → Option Record
  | .inMethod scope part => (t.methodAt? scope).bind (·.record? part)
  | .inStruct n name => (t.attributeAt? n name).map .attr

/-- The slots that the members of a struct have. -/
def slots (t : SymbolTable) (n : String) (sort : MemberSort) : List Nat :=
  ((t.struct? n).map (·.slots sort)).getD []

/-- The second table has one record more than the first. -/
structure Gains (t t' : SymbolTable) (site : Site) (record : Record) : Prop where
  free : t.record? site = none
  added : t'.record? site = some record
  others : ∀ other, other ≠ site → t'.record? other = t.record? other

/-- The second table has one record more than the first, and nothing else in the structs is
different, but for the count of the slots where the record takes one. -/
structure Adds (t t' : SymbolTable) (site : Site) (record : Record) : Prop
    extends t.Gains t' site record where
  structs : ∀ n, (t'.struct? n).map Struct.bare = (t.struct? n).map Struct.bare
  slots : ∀ n sort, (t'.struct? n).map (·.nextSlot sort) =
    (t.struct? n).map fun s => s.nextSlot sort + if site.numbers n sort then 1 else 0

/-- What is added does not depend on the notes of undeclared types. -/
theorem Adds.congr (h : u.Adds t' site record) (hstart : u.start = t.start)
    (hstruct : ∀ n, u.struct? n = t.struct? n) : t.Adds t' site record := by
  have hrecord (site : Site) : u.record? site = t.record? site := by
    cases site with
    | inMethod scope part => rw [record?, record?, methodAt?_congr hstart hstruct]
    | inStruct n name => rw [record?, record?, attributeAt?, attributeAt?, hstruct]
  refine ⟨⟨?_, h.added, fun other hother => ?_⟩, fun n => ?_, fun n sort => ?_⟩
  · rw [← hrecord]
    exact h.free
  · rw [← hrecord]
    exact h.others other hother
  · rw [← hstruct]
    exact h.structs n
  · rw [← hstruct]
    exact h.slots n sort

/-! ## One method changes -/

section Methods

variable {scope : Scope}

theorem exists_methodAt?_of_record? {part : MethodPart}
    (h : t.record? (.inMethod scope part) = some record) : ∃ m, t.methodAt? scope = some m := by
  obtain ⟨m, hm, _⟩ := Option.bind_eq_some_iff.1 h
  exact ⟨m, hm⟩

/-- One method has another record, and no other method and no attribute has changed. -/
structure ChangesMethod (t t' : SymbolTable) (scope : Scope) : Prop where
  methods : ∀ other, other ≠ scope → t'.methodAt? other = t.methodAt? other
  attributes : ∀ n name, t'.attributeAt? n name = t.attributeAt? n name

/-- Of the changed method one part is new, and the others are what they were. -/
theorem ChangesMethod.gains (h : t.ChangesMethod t' scope) {part : MethodPart}
    (hfree : (t.methodAt? scope).bind (·.record? part) = none)
    (hadded : (t'.methodAt? scope).bind (·.record? part) = some record)
    (hparts : ∀ other, other ≠ part →
      (t'.methodAt? scope).bind (·.record? other) = (t.methodAt? scope).bind (·.record? other)) :
    t.Gains t' (.inMethod scope part) record := by
  refine ⟨hfree, hadded, fun other hother => ?_⟩
  cases other with
  | inStruct n name => rw [record?, record?, h.attributes]
  | inMethod scope' part' =>
    by_cases hscope : scope' = scope
    · subst hscope
      exact hparts part' fun hpart => hother (by rw [hpart])
    · rw [record?, record?, h.methods scope' hscope]

theorem ChangesMethod.gains_declare (h : t.ChangesMethod t' scope) {token : Token}
    {owner : Option String} {kind : MethodKind} {ty : Ty} {slot : Nat}
    (hnone : t.methodAt? scope = none)
    (hsome : t'.methodAt? scope = some (.declare token owner kind ty slot)) :
    t.Gains t' (.inMethod scope .heading) (.method token owner kind ty slot) := by
  refine h.gains ?_ ?_ fun other hother => ?_
  · rw [hnone]
    rfl
  · rw [hsome]
    rfl
  · rw [hnone, hsome]
    exact Method.record?_declare hother

theorem ChangesMethod.gains_push (h : t.ChangesMethod t' scope) {m m' : Method}
    {sort : BindingSort} {b : Binding} (hm : t.methodAt? scope = some m)
    (hm' : t'.methodAt? scope = some m') (hpush : m.Pushes m' sort b) :
    t.Gains t' (.inMethod scope (.binding sort (m.bindings sort).length)) (.binding b) := by
  refine h.gains ?_ ?_ fun other hother => ?_
  · rw [hm]
    simp [Method.record?]
  · rw [hm']
    simp [Method.record?, hpush.pushed]
  · rw [hm, hm']
    exact hpush.record?_eq hother

end Methods

/-! ## One struct changes -/

section Updates

variable {owner : String} {s s' : Struct} {token : Token} {ty : Ty}

/-- What is read off the structs stays where the changed struct keeps it. -/
theorem Updates.bind_struct? {β : Type} (h : t.Updates owner s s' t') {read : Struct → Option β}
    {n : String} (hread : n = owner → read s' = read s) :
    (t'.struct? n).bind read = (t.struct? n).bind read := by
  rw [h.after]
  split
  · next hn =>
    rw [hn, h.before]
    exact hread hn
  · rfl

theorem Updates.methodAt?_eq (h : t.Updates owner s s' t') (hstart : t'.start = t.start)
    {scope : Scope} (hconstructor : scope = .constructor owner → s'.constructor = s.constructor)
    (hmethods : ∀ name, scope = .method owner name → s'.methods.get? name = s.methods.get? name) :
    t'.methodAt? scope = t.methodAt? scope := by
  cases scope with
  | closed | struct n => rfl
  | start => exact hstart
  | constructor n => exact h.bind_struct? fun hn => hconstructor (by rw [hn])
  | method n name => exact h.bind_struct? fun hn => hmethods name (by rw [hn])

/-- A record is added to one struct, and the struct is otherwise what it was. -/
theorem Updates.adds (h : t.Updates owner s s' t') (hgains : t.Gains t' site record)
    (hbare : s'.bare = s.bare)
    (hslots : ∀ sort, s'.nextSlot sort = s.nextSlot sort + if site.numbers owner sort then 1 else 0)
    (hothers : ∀ n sort, n ≠ owner → site.numbers n sort = false) : t.Adds t' site record := by
  refine ⟨hgains, fun n => ?_, fun n sort => ?_⟩
  · rw [h.after]
    split
    · next hn => rw [hn, h.before, Option.map_some, Option.map_some, hbare]
    · rfl
  · rw [h.after]
    split
    · next hn => rw [hn, h.before, Option.map_some, Option.map_some, hslots]
    · next hn =>
      rw [hothers n sort hn]
      rfl

theorem Updates.adds_method (h : t.Updates owner s s' t') (hstart : t'.start = t.start)
    (hname : s.name = owner) {kind : MethodKind} (hkind : kind ≠ .constructor)
    (hadd : s.addMethod token kind ty = .ok s') :
    t.Adds t' (.inMethod (.method owner token.lexeme) .heading)
      (.method token (some owner) kind ty s.nextMethodSlot) := by
  obtain ⟨hctor, _⟩ | ⟨_, hfree, rfl⟩ := Struct.addMethod_eq_ok.1 hadd
  · exact absurd hctor hkind
  have hchanges : t.ChangesMethod t' (.method owner token.lexeme) := by
    refine ⟨fun other hother => h.methodAt?_eq hstart (fun _ => rfl) fun name hscope => ?_,
      fun n name => h.bind_struct? fun _ => rfl⟩
    have hne : name ≠ token.lexeme := fun heq => hother (by rw [hscope, heq])
    exact (NameMap.get?_insert _ _ _ _).trans (if_neg hne)
  refine h.adds (hchanges.gains_declare ?_ ?_) rfl (fun sort => ?_) fun n sort hn => ?_
  · rw [methodAt?, h.before]
    exact NameMap.contains_eq_false_iff.1 hfree
  · rw [methodAt?, h.after, if_pos rfl, Option.bind_some, NameMap.get?_insert, if_pos rfl, hname]
  · cases sort <;> simp [Struct.nextSlot, Site.numbers]
  · cases sort <;> simp [Site.numbers, Ne.symm hn]

theorem Updates.adds_constructor (h : t.Updates owner s s' t') (hstart : t'.start = t.start)
    (hname : s.name = owner) (hadd : s.addMethod token .constructor ty = .ok s') :
    t.Adds t' (.inMethod (.constructor owner) .heading)
      (.method token (some owner) .constructor .void 0) := by
  obtain ⟨_, hnone, rfl⟩ | ⟨hctor, _⟩ := Struct.addMethod_eq_ok.1 hadd
  · have hchanges : t.ChangesMethod t' (.constructor owner) :=
      ⟨fun other hother =>
          h.methodAt?_eq hstart (fun hscope => absurd hscope hother) fun _ _ => rfl,
        fun n name => h.bind_struct? fun _ => rfl⟩
    refine h.adds (hchanges.gains_declare ?_ ?_) rfl (fun sort => ?_) fun n sort _ => ?_
    · rw [methodAt?, h.before]
      exact hnone
    · rw [methodAt?, h.after, if_pos rfl, Option.bind_some, hname]
    · cases sort <;> rfl
    · cases sort <;> rfl
  · exact absurd rfl hctor

theorem Updates.adds_attribute (h : t.Updates owner s s' t') (hstart : t'.start = t.start)
    (hname : s.name = owner) {isPrivate : Bool}
    (hadd : s.addAttribute token ty isPrivate = .ok s') :
    t.Adds t' (.inStruct owner token.lexeme)
      (.attr (.declare token owner ty isPrivate s.nextAttributeSlot)) := by
  obtain ⟨hfree, rfl⟩ := Struct.addAttribute_eq_ok.1 hadd
  refine h.adds ⟨?_, ?_, fun other hother => ?_⟩ rfl (fun sort => ?_) fun n sort hn => ?_
  · rw [record?, attributeAt?, h.before, Option.bind_some, NameMap.contains_eq_false_iff.1 hfree]
    rfl
  · rw [record?, attributeAt?, h.after, if_pos rfl, Option.bind_some, NameMap.get?_insert,
      if_pos rfl, hname]
    rfl
  · cases other with
    | inMethod scope part =>
      rw [record?, record?, h.methodAt?_eq hstart (fun _ => rfl) fun _ _ => rfl]
    | inStruct n name =>
      refine congrArg (Option.map Record.attr) (h.bind_struct? fun hn => ?_)
      have hne : name ≠ token.lexeme := fun heq => hother (by rw [hn, heq])
      exact (NameMap.get?_insert _ _ _ _).trans (if_neg hne)
  · cases sort <;> simp [Struct.nextSlot, Site.numbers]
  · cases sort <;> simp [Site.numbers, Ne.symm hn]

end Updates

/-! ## The open method changes -/

section OpenMethod

variable {m m' : Method}

/-- Another record for the open method leaves what does not belong to the methods of a struct. -/
theorem map_struct?_setOpenMethod {β : Type} {read : Struct → β}
    (hread : ∀ (s : Struct) constructor methods, read { s with constructor, methods } = read s)
    (n : String) : ((t.setOpenMethod m).struct? n).map read = (t.struct? n).map read := by
  have hmodify {owner : String} {f : Struct → Struct} (hf : ∀ s, read (f s) = read s) :
      ((t.structs.modify owner f).get? n).map read = (t.struct? n).map read := by
    rw [NameMap.get?_modify]
    split
    · next hn =>
      rw [hn, Option.map_map]
      exact Option.map_congr fun s _ => hf s
    · rfl
  unfold setOpenMethod
  split
  · rfl
  · rfl
  · rfl
  · exact hmodify fun s => hread s (some m) s.methods
  · next name _ => exact hmodify fun s => hread s s.constructor (s.methods.insert name m)

theorem changesMethod_setOpenMethod (t : SymbolTable) (m : Method) :
    t.ChangesMethod (t.setOpenMethod m) t.scope where
  methods _ hother := methodAt?_setOpenMethod_of_ne hother
  attributes n name := by
    have hsame : ((t.setOpenMethod m).struct? n).map (·.attributes) =
        (t.struct? n).map (·.attributes) := map_struct?_setOpenMethod (fun _ _ _ => rfl) n
    have hread := congrArg (Option.bind · fun attributes => attributes.get? name) hsame
    simp only [Option.bind_map] at hread
    exact hread

/-- A binding is added to the open method. -/
theorem adds_setOpenMethod {sort : BindingSort} {b : Binding} (hopen : t.openMethod? = some m)
    (hpush : m.Pushes m' sort b) :
    t.Adds (t.setOpenMethod m') (.inMethod t.scope (.binding sort (m.bindings sort).length))
      (.binding b) := by
  have hsome : (t.setOpenMethod m').methodAt? t.scope = some m' := by
    rw [← openMethod?_setOpenMethod hopen, openMethod?_eq, scope_setOpenMethod]
  refine ⟨(changesMethod_setOpenMethod t m').gains_push hopen hsome hpush,
    map_struct?_setOpenMethod fun _ _ _ => rfl, fun n sort' => ?_⟩
  have hnumbers (position : Nat) :
      (Site.inMethod t.scope (.binding sort position)).numbers n sort' = false := by
    cases t.scope <;> cases sort' <;> rfl
  rw [hnumbers]
  refine map_struct?_setOpenMethod (fun s constructor methods => ?_) n
  cases sort' <;> rfl

end OpenMethod

/-! ## What is open -/

/-- The method exists that the scope stands for, if it stands for one. -/
def MethodOpen (t : SymbolTable) : Prop :=
  t.scope.opensMethod = true → ∃ m, t.openMethod? = some m

theorem scope_place {token : Token} {parent : Option Token} {form : Form}
    (hne : ∀ p, parent = some p → p.lexeme ≠ token.lexeme) :
    (t.place token parent form).scope = t.scope := by
  rw [place_eq hne]

theorem methodOpen_new : new.MethodOpen := nofun

/-- Every step of a declaration keeps the open method, or opens one that it has just added. -/
theorem Step.methodOpen (hstep : Step t t') (hsound : t.Sound) (h : t.MethodOpen) :
    t'.MethodOpen := by
  cases hstep with
  | note token =>
    unfold MethodOpen
    rw [scope_noteType, openMethod?_noteType]
    exact h
  | placed =>
    intro hopens
    cases hopens
  | misplaced hfree =>
    have hne := fun p hp => ((structRefusal?_eq_none_iff.1 hfree).2.2 p hp).2
    unfold MethodOpen
    rw [openMethod?_eq, methodAt?_place hne, scope_place hne]
    exact h
  | started token hnew => exact fun _ => ⟨_, rfl⟩
  | @addedMethod owner s s' token kind ty hkind hscope hs hadd hty =>
    intro _
    have hupdates : t.Updates owner s s' { t with
        structs := t.structs.insert owner s', scope := methodScope owner kind token } :=
      .of_insert (hsound.contents.scope owner hscope).1 hs rfl
    have hname := hsound.registry.name_eq hs
    rw [openMethod?_eq, methodScope]
    by_cases hctor : kind = .constructor
    · subst hctor
      exact exists_methodAt?_of_record? (hupdates.adds_constructor rfl hname hadd).added
    · rw [if_neg hctor]
      exact exists_methodAt?_of_record? (hupdates.adds_method rfl hname hctor hadd).added
  | addedAttribute hscope =>
    intro hopens
    rw [show t.scope = _ from hscope] at hopens
    cases hopens
  | addedBinding hopen => exact fun _ => ⟨_, openMethod?_setOpenMethod hopen⟩
  | lost scope hscope hnone =>
    have hregistered := (hsound.contents.scope _ hscope).2
    rw [contains_eq_false_iff_struct?.2 hnone] at hregistered
    cases hregistered
  | close =>
    intro hopens
    cases hopens

theorem methodOpen_of_reaches (hsteps : Relation.ReflTransGen Step t t') (hsound : t.Sound)
    (h : t.MethodOpen) : t'.MethodOpen := by
  induction hsteps with
  | refl => exact h
  | tail hbefore hstep ih => exact hstep.methodOpen (hsound.reaches hbefore) ih

theorem methodOpen_after (hsound : t.Sound) (h : t.MethodOpen) (calls : List Call) :
    (t.after calls).MethodOpen := by
  induction calls generalizing t with
  | nil => exact h
  | cons call calls ih =>
    exact ih (hsound.reaches (call.moves t)) (methodOpen_of_reaches (call.moves t) hsound h)

theorem methodOpen_declared (calls : List Call) : (declared calls).MethodOpen :=
  methodOpen_after sound_new methodOpen_new calls

end SymbolTable

/-! ## What the accepted calls have opened -/

/-- The scope that a call leaves if it is accepted. -/
def Call.opens (scope : Scope) : Call → Scope
  | struct token _ _ => .struct token.lexeme
  | method _ .start _ => .start
  | method _ .constructor _ => (scope.struct?.map .constructor).getD scope
  | method token _ _ => (scope.struct?.map (.method · token.lexeme)).getD scope
  | param _ _ | var _ _ _ => scope
  | close => .closed

namespace SymbolTable

variable {t t' u : SymbolTable} {site : Site} {record : Record}

/-- The calls that are accepted, in their order. -/
def accepted : SymbolTable → List Call → List Call
  | _, [] => []
  | t, call :: calls =>
    (if succeeds call.run t then [call] else []) ++ accepted (stateAfter call.run t) calls

theorem scope_declareStruct (t : SymbolTable) (token : Token) (parent : Option Token)
    (form : Form) :
    (stateAfter (declareStruct token parent form) t).scope =
      if succeeds (declareStruct token parent form) t then .struct token.lexeme else t.scope := by
  rw [stateAfter, succeeds, run_declareStruct]
  cases hfree : t.structRefusal? token (parentToken form parent) form with
  | some refusal => rfl
  | none =>
    have hne := fun p hp => ((structRefusal?_eq_none_iff.1 hfree).2.2 p hp).2
    cases hcycle : (t.place token (parentToken form parent) form).isCyclic token.lexeme with
    | true =>
      simp only [hcycle, if_true, Bool.false_eq_true, if_false]
      exact scope_place hne
    | false =>
      simp only [hcycle, Bool.false_eq_true, if_false, if_true]
      rfl

theorem scope_declareMethod (t : SymbolTable) (token : Token) (kind : MethodKind)
    (returnType : Option Token) :
    (stateAfter (declareMethod token kind returnType) t).scope =
      if succeeds (declareMethod token kind returnType) t
        then (Call.method token kind returnType).opens t.scope else t.scope := by
  by_cases hkind : kind = .start
  · rw [hkind, stateAfter, succeeds, run_declareMethod_start]
    cases t.start <;> rfl
  · have hopens : (Call.method token kind returnType).opens t.scope =
        (t.scope.struct?.map (methodScope · kind token)).getD t.scope := by
      cases kind with
      | start => exact absurd rfl hkind
      | constructor | onInstance | static => rfl
    have hscope := scope_noteOptional t (returnToken kind returnType)
    rw [hopens, stateAfter, succeeds, run_declareMethod token hkind, run_declareTyped, ← hscope]
    generalize t.noteOptional (returnToken kind returnType) = u
    cases howner : u.scope.struct? with
    | none => simp
    | some owner =>
      cases hs : u.struct? owner with
      | none => simp [hs]
      | some s =>
        cases hadd : s.addMethod token kind (typeOf (returnToken kind returnType)) <;>
          simp [hs, hadd]

theorem scope_modifyOpenMethod (t : SymbolTable) (token : Token)
    (f : Method → Except SemanticError Method) :
    (stateAfter (modifyOpenMethod token f) t).scope = t.scope := by
  rw [stateAfter, run_modifyOpenMethod]
  cases t.openMethod?.map f with
  | none => rfl
  | some result =>
    cases result with
    | ok m => exact scope_setOpenMethod t m
    | error e => rfl

theorem scope_declareVar (t : SymbolTable) (token type : Token) (isPrivate : Bool) :
    (stateAfter (declareVar token type isPrivate) t).scope = t.scope := by
  have hlocal := scope_modifyOpenMethod (t.noteType type) token
    (·.addLocal token (Ty.ofName type.lexeme))
  rw [stateAfter, run_declareVar]
  refine Eq.trans ?_ (scope_noteType t type)
  cases t.scope with
  | closed => rfl
  | start | constructor owner | method owner name => exact hlocal
  | struct owner =>
    dsimp only
    cases (t.struct? owner).map (Struct.addAttribute · token (Ty.ofName type.lexeme) isPrivate) with
    | none => rfl
    | some result => cases result <;> rfl

/-- An accepted call opens what it declares, and a refused one leaves the scope alone. -/
theorem scope_call (t : SymbolTable) (call : Call) :
    (stateAfter call.run t).scope =
      if succeeds call.run t then call.opens t.scope else t.scope := by
  cases call with
  | struct token parent form => exact scope_declareStruct t token parent form
  | method token kind returnType => exact scope_declareMethod t token kind returnType
  | param token type =>
    have hbinding := scope_modifyOpenMethod (t.noteType type) token
      (·.addParam token (Ty.ofName type.lexeme))
    rw [scope_noteType, stateAfter, ← run_declareParam] at hbinding
    rw [Call.opens, ite_self]
    exact hbinding
  | var token type isPrivate =>
    rw [Call.opens, ite_self]
    exact scope_declareVar t token type isPrivate
  | close => rfl

theorem scope_after (t : SymbolTable) (calls : List Call) :
    (t.after calls).scope = (accepted t calls).foldl Call.opens t.scope := by
  induction calls generalizing t with
  | nil => rfl
  | cons call calls ih =>
    refine (ih (stateAfter call.run t)).trans ?_
    rw [scope_call, accepted, List.foldl_append]
    split <;> rfl

theorem scope_declared (calls : List Call) :
    (declared calls).scope = (accepted new calls).foldl Call.opens .closed :=
  scope_after new calls

end SymbolTable

/-! ## What calls add -/

namespace Call

/-- Whether a call declares a method, a parameter or a variable. -/
def declaresMember : Call → Bool
  | method _ _ _ | param _ _ | var _ _ _ => true
  | struct _ _ _ | close => false

/-- The record that a call adds if it is accepted, and its site.  A method or an attribute takes the
slot after those of the open struct, and a parameter or a local variable the position after those of
the open method. -/
def addition? (t : SymbolTable) : Call → Option (Site × Record)
  | method token .start _ => some (.inMethod .start .heading, .method token none .start .void 0)
  | method token .constructor _ => t.scope.struct?.map fun owner =>
    (.inMethod (.constructor owner) .heading, .method token (some owner) .constructor .void 0)
  | method token kind returnType => t.scope.struct?.map fun owner =>
    (.inMethod (.method owner token.lexeme) .heading,
      .method token (some owner) kind (SymbolTable.typeOf returnType)
        (t.slots owner .methods).length)
  | param token type => t.openMethod?.map fun m =>
    (.inMethod t.scope (.binding .params m.params.length), .binding ⟨token, .ofName type.lexeme⟩)
  | var token type isPrivate =>
    match t.scope with
    | .struct owner => some (.inStruct owner token.lexeme,
      .attr (.declare token owner (.ofName type.lexeme) isPrivate
        (t.slots owner .attributes).length))
    | scope => t.openMethod?.map fun m =>
      (.inMethod scope (.binding .locals m.locals.length), .binding ⟨token, .ofName type.lexeme⟩)
  | struct _ _ _ | close => none

end Call

namespace SymbolTable

variable {t t' : SymbolTable} {token type : Token} {owner : String} {s s' : Struct}

/-- The members of a declared struct have the slots from 0 on. -/
theorem Sound.slots_eq (h : t.Sound) (huser : Builtin.structs.contains owner = false)
    (hs : t.struct? owner = some s) (sort : MemberSort) :
    t.slots owner sort = List.range (s.nextSlot sort) := by
  obtain ⟨ms, as, hown⟩ := h.contents.own owner s huser hs
  rw [slots, hs]
  exact hown.laid.slots_eq sort

/-- The only struct that an accepted method changes is the open one, which is registered. -/
theorem updates_of_declareMethod (h : t.Sound) {kind : MethodKind} (hkind : kind ≠ .start)
    {returnType : Option Token} (hrun : (declareMethod token kind returnType).run t = .ok () t') :
    ∃ owner s s', t.scope.struct? = some owner ∧ t.Updates owner s s' t' ∧ t'.start = t.start ∧
      s.addMethod token kind (typeOf (returnToken kind returnType)) = .ok s' := by
  rw [run_declareMethod token hkind, run_declareTyped, scope_noteOptional] at hrun
  cases howner : t.scope.struct? with
  | none =>
    rw [howner] at hrun
    cases hrun
  | some owner =>
    obtain ⟨huser, hregistered⟩ := h.contents.scope owner howner
    obtain ⟨s, hs⟩ := contains_iff_struct?.1 hregistered
    simp only [howner, struct?_noteOptional, hs, Option.map_some] at hrun
    cases hadd : s.addMethod token kind (typeOf (returnToken kind returnType)) with
    | error e =>
      rw [hadd] at hrun
      cases hrun
    | ok s' =>
      rw [hadd] at hrun
      cases hrun
      refine ⟨owner, s, s', rfl, .of_insert huser hs ?_, ?_, hadd⟩
      · show (t.noteOptional _).structs.insert owner s' = _
        cases returnToken kind returnType with
        | none => rfl
        | some token => rw [noteOptional, structs_noteType]
      · show (t.noteOptional _).start = _
        cases returnToken kind returnType with
        | none => rfl
        | some token => rw [noteOptional, start_noteType]

theorem adds_declareStart {returnType : Option Token}
    (hrun : (declareMethod token .start returnType).run t = .ok () t') :
    t.Adds t' (.inMethod .start .heading) (.method token none .start .void 0) := by
  rw [run_declareMethod_start] at hrun
  cases hstart : t.start with
  | some m =>
    rw [hstart] at hrun
    cases hrun
  | none =>
    rw [hstart] at hrun
    cases hrun
    have hchanges : t.ChangesMethod
        { t with start := some (.declare token none .start .void 0), scope := .start } .start := by
      refine ⟨fun other hother => ?_, fun _ _ => rfl⟩
      cases other with
      | start => exact absurd rfl hother
      | closed | struct n | constructor n | method n name => rfl
    refine ⟨hchanges.gains_declare hstart rfl, fun _ => rfl, fun n sort => ?_⟩
    cases sort <;> rfl

theorem adds_declareMethod (h : t.Sound) {kind : MethodKind} {returnType : Option Token}
    (hrun : (declareMethod token kind returnType).run t = .ok () t') :
    ∃ site record, (Call.method token kind returnType).addition? t = some (site, record) ∧
      t.Adds t' site record := by
  by_cases hkind : kind = .start
  · subst hkind
    exact ⟨_, _, rfl, adds_declareStart hrun⟩
  · obtain ⟨owner, s, s', howner, hupdates, hstart, hadd⟩ := updates_of_declareMethod h hkind hrun
    have hname := h.registry.name_eq hupdates.before
    have hslots : (t.slots owner .methods).length = s.nextMethodSlot := by
      rw [h.slots_eq hupdates.user hupdates.before, List.length_range]
      rfl
    cases kind with
    | start => exact absurd rfl hkind
    | constructor =>
      refine ⟨_, _, ?_, hupdates.adds_constructor hstart hname hadd⟩
      rw [Call.addition?, howner, Option.map_some]
    | onInstance | static =>
      have hadds := hupdates.adds_method hstart hname (by decide) hadd
      refine ⟨_, _, ?_, hadds⟩
      simp only [Call.addition?, howner, Option.map_some, hslots]
      rfl

/-- An accepted binding goes to the open method. -/
theorem adds_modifyOpenMethod {f : Method → Except SemanticError Method} {sort : BindingSort}
    {b : Binding} (hf : ∀ m m', f m = .ok m' → m.Pushes m' sort b)
    (hrun : (modifyOpenMethod token f).run (t.noteType type) = .ok () t') :
    ∃ m, t.openMethod? = some m ∧
      t.Adds t' (.inMethod t.scope (.binding sort (m.bindings sort).length)) (.binding b) := by
  rw [run_modifyOpenMethod] at hrun
  cases hopen : (t.noteType type).openMethod? with
  | none =>
    rw [hopen] at hrun
    cases hrun
  | some m =>
    rw [hopen, Option.map_some] at hrun
    cases hm : f m with
    | error e =>
      rw [hm] at hrun
      cases hrun
    | ok m' =>
      rw [hm] at hrun
      cases hrun
      have hadds := adds_setOpenMethod hopen (hf m m' hm)
      rw [scope_noteType] at hadds
      rw [openMethod?_noteType] at hopen
      exact ⟨m, hopen, hadds.congr (start_noteType t type) (struct?_noteType t type)⟩

theorem adds_declareParam (hrun : (declareParam token type).run t = .ok () t') :
    ∃ site record, (Call.param token type).addition? t = some (site, record) ∧
      t.Adds t' site record := by
  rw [run_declareParam] at hrun
  obtain ⟨m, hopen, hadds⟩ := adds_modifyOpenMethod (fun _ _ => Method.pushes_addParam) hrun
  refine ⟨_, _, ?_, hadds⟩
  rw [Call.addition?, hopen]
  rfl

theorem adds_declareLocal (hopens : t.scope.opensMethod = true) {isPrivate : Bool}
    (hrun : (declareVar token type isPrivate).run t = .ok () t') :
    ∃ site record, (Call.var token type isPrivate).addition? t = some (site, record) ∧
      t.Adds t' site record := by
  rw [run_declareVar] at hrun
  rw [Call.addition?]
  cases hscope : t.scope with
  | closed | struct owner =>
    rw [hscope] at hopens
    cases hopens
  | start | constructor owner | method owner name =>
    rw [hscope] at hrun
    obtain ⟨m, hopen, hadds⟩ := adds_modifyOpenMethod (fun _ _ => Method.pushes_addLocal) hrun
    rw [hscope] at hadds
    refine ⟨_, _, ?_, hadds⟩
    rw [hopen]
    rfl

theorem adds_declareAttribute (h : t.Sound) (hscope : t.scope = .struct owner) {isPrivate : Bool}
    (hrun : (declareVar token type isPrivate).run t = .ok () t') :
    ∃ site record, (Call.var token type isPrivate).addition? t = some (site, record) ∧
      t.Adds t' site record := by
  obtain ⟨huser, hregistered⟩ := h.contents.scope owner (by rw [hscope]; rfl)
  obtain ⟨s, hs⟩ := contains_iff_struct?.1 hregistered
  rw [run_declareVar, hscope] at hrun
  simp only [hs, Option.map_some] at hrun
  cases hadd : s.addAttribute token (Ty.ofName type.lexeme) isPrivate with
  | error e =>
    rw [hadd] at hrun
    cases hrun
  | ok s' =>
    rw [hadd] at hrun
    cases hrun
    have hslots : (t.slots owner .attributes).length = s.nextAttributeSlot := by
      rw [h.slots_eq huser hs, List.length_range]
      rfl
    have hupdates : t.Updates owner s s' { t.noteType type with
        structs := (t.noteType type).structs.insert owner s' } :=
      .of_insert huser hs (by rw [structs_noteType])
    refine ⟨_, _, ?_, hupdates.adds_attribute (start_noteType t type) (h.registry.name_eq hs) hadd⟩
    simp only [Call.addition?, hscope, hslots]

/-- An accepted call adds the one record that it is to add. -/
theorem adds_call (h : t.Sound) {call : Call} (hcall : call.declaresMember = true)
    (hrun : call.run.run t = .ok () t') :
    ∃ site record, call.addition? t = some (site, record) ∧ t.Adds t' site record := by
  cases call with
  | struct | close => cases hcall
  | method token kind returnType => exact adds_declareMethod h hrun
  | param token type => exact adds_declareParam hrun
  | var token type isPrivate =>
    cases hscope : t.scope with
    | start | constructor owner | method owner name =>
      exact adds_declareLocal (by rw [hscope]; rfl) hrun
    | struct owner => exact adds_declareAttribute h hscope hrun
    | closed =>
      rw [Call.run, run_declareVar, hscope] at hrun
      cases hrun

/-- A variable is refused where nothing is open, and for its name.  It is not refused for want of
the method that is open. -/
theorem cause_of_declareVar (h : t.MethodOpen) {isPrivate : Bool} {e : SemanticError}
    (hrun : (declareVar token type isPrivate).run t = .error e t') :
    e.cause = .missing token.lexeme .enclosingStruct ∨
      ∃ what, e.cause = .repeated what token.lexeme := by
  have hlocal (hopens : t.scope.opensMethod = true)
      (hrun : (modifyOpenMethod token (·.addLocal token (Ty.ofName type.lexeme))).run
        (t.noteType type) = .error e t') : ∃ what, e.cause = .repeated what token.lexeme := by
    obtain ⟨m, hm⟩ := h hopens
    rw [run_modifyOpenMethod, openMethod?_noteType, hm, Option.map_some] at hrun
    cases hadd : m.addLocal token (Ty.ofName type.lexeme) with
    | ok m' =>
      rw [hadd] at hrun
      cases hrun
    | error e' =>
      rw [hadd] at hrun
      cases hrun
      exact ⟨_, Method.addLocal_eq_error hadd⟩
  rw [run_declareVar] at hrun
  cases hscope : t.scope with
  | closed =>
    rw [hscope] at hrun
    cases hrun
    exact .inl rfl
  | struct owner =>
    simp only [hscope] at hrun
    cases hs : t.struct? owner with
    | none =>
      rw [hs] at hrun
      cases hrun
      exact .inl rfl
    | some s =>
      rw [hs, Option.map_some] at hrun
      cases hadd : s.addAttribute token (Ty.ofName type.lexeme) isPrivate with
      | ok s' =>
        rw [hadd] at hrun
        cases hrun
      | error e' =>
        rw [hadd] at hrun
        cases hrun
        exact .inr ⟨_, Struct.addAttribute_eq_error hadd⟩
  | start | constructor owner | method owner name =>
    rw [hscope] at hrun hlocal
    exact .inr (hlocal rfl hrun)

/-- Declarations land where they belong: what is open exists, an accepted call adds exactly the
record that it is to add, and a variable is not refused for want of the open method. -/
structure PlacesRecords (t : SymbolTable) : Prop where
  /-- The open struct is registered, and its members have the slots from 0 on. -/
  openStruct : ∀ owner, t.scope.struct? = some owner →
    (∃ s, t.struct? owner = some s ∧ s.name = owner) ∧
      ∀ sort, t.slots owner sort = List.range (t.slots owner sort).length
  openMethod : t.scope.opensMethod = true → ∃ m, t.openMethod? = some m
  adds : ∀ (call : Call) t', call.declaresMember = true → call.run.run t = .ok () t' →
    ∃ site record, call.addition? t = some (site, record) ∧ t.Adds t' site record
  refusals : ∀ token type isPrivate e t', (declareVar token type isPrivate).run t = .error e t' →
    ∀ name, e.cause ≠ .missing name .enclosingMethod

theorem Sound.placesRecords (h : t.Sound) (hopen : t.MethodOpen) : t.PlacesRecords where
  openStruct owner howner := by
    obtain ⟨huser, hregistered⟩ := h.contents.scope owner howner
    obtain ⟨s, hs⟩ := contains_iff_struct?.1 hregistered
    refine ⟨⟨s, hs, h.registry.name_eq hs⟩, fun sort => ?_⟩
    rw [h.slots_eq huser hs, List.length_range]
  openMethod := hopen
  adds _ _ hcall hrun := adds_call h hcall hrun
  refusals token type isPrivate e t' hrun name hcause := by
    obtain hmissing | ⟨what, hrepeated⟩ := cause_of_declareVar hopen hrun
    · rw [hcause] at hmissing
      cases hmissing
    · rw [hcause] at hrepeated
      cases hrepeated

/-- After any calls, the refused ones included, the scope is what the accepted calls have opened,
and declarations land where they belong. -/
theorem placesRecords_declared (calls : List Call) :
    (declared calls).scope = (accepted new calls).foldl Call.opens .closed ∧
      (declared calls).PlacesRecords :=
  ⟨scope_declared calls, (sound_declared calls).placesRecords (methodOpen_declared calls)⟩

/-- A method with a parameter, then a method and a struct whose names are taken. -/
def refusedCalls : List Call :=
  let struct : Token := ⟨.structId, "A", 1, 8⟩
  let method : Token := ⟨.objectId, "f", 2, 5⟩
  let int : Token := ⟨.intType, "Int", 2, 7⟩
  [.struct struct none .implementation, .method method .onInstance none,
    .param ⟨.objectId, "x", 2, 11⟩ int, .method method .onInstance none,
    .struct struct none .implementation]

/-- The refused calls leave the method open, which takes the next parameter. -/
theorem placesRecords_refusedCalls :
    (declared refusedCalls).scope = .method "A" "f" ∧
      ∃ t', (Call.param ⟨.objectId, "y", 3, 9⟩ ⟨.intType, "Int", 3, 5⟩).run.run
          (declared refusedCalls) = .ok () t' ∧
        (declared refusedCalls).Adds t' (.inMethod (.method "A" "f") (.binding .params 1))
          (.binding ⟨⟨.objectId, "y", 3, 9⟩, .ofName "Int"⟩) := by
  have hscope : (declared refusedCalls).scope = .method "A" "f" :=
    (placesRecords_declared refusedCalls).1.trans (by decide +kernel)
  have hsucceeds : succeeds (Call.param ⟨.objectId, "y", 3, 9⟩ ⟨.intType, "Int", 3, 5⟩).run
      (declared refusedCalls) = true := by decide +kernel
  have hrun := run_of_succeeds hsucceeds
  obtain ⟨site, record, hadd, hadds⟩ := (placesRecords_declared refusedCalls).2.adds _ _ rfl hrun
  have hknown : (Call.param ⟨.objectId, "y", 3, 9⟩ ⟨.intType, "Int", 3, 5⟩).addition?
      (declared refusedCalls) = some (.inMethod (.method "A" "f") (.binding .params 1),
        .binding ⟨⟨.objectId, "y", 3, 9⟩, .ofName "Int"⟩) := by decide +kernel
  rw [hknown] at hadd
  cases hadd
  exact ⟨hscope, _, hrun, hadds⟩

end SymbolTable

end StructLang
