import StructLang.Proofs.Calls

/-!
# Tables that operations make

A table is also used after a completion, whether that succeeded or failed: further calls may follow,
and the structs that accepted bodies create are marked.  `made` is the table after any operations on
the empty one.  The tables of programs are among them (`exists_made_of_declare`,
`exists_made_of_analyze`).

Little of what holds before a completion holds of all these tables, since a completion that fails
leaves members merged in part.  What stays is that every struct is registered under its own name
(`keyed_made`): no operation replaces the token of a struct.
-/

namespace StructLang

/-- What may be done to a table. -/
inductive Operation where
  | call (call : Call)
  | consolidate
  /-- Marks a struct as created. -/
  | mark (name : String)

namespace SymbolTable

variable {t t' : SymbolTable}

/-- The table after an operation, successful or not. -/
def perform (t : SymbolTable) : Operation → SymbolTable
  | .call call => stateAfter call.run t
  | .consolidate => stateAfter consolidate t
  | .mark name => t.markInstantiated name

/-- The table that operations make. -/
def made (operations : List Operation) : SymbolTable := operations.foldl perform new

/-! ## Programs -/

/-- One operation leads from a table to another. -/
def Performs (t t' : SymbolTable) : Prop := ∃ operation, t' = t.perform operation

theorem exists_made_of_performs (h : Relation.ReflTransGen Performs new t) :
    ∃ operations, t = made operations := by
  induction h with
  | refl => exact ⟨[], rfl⟩
  | tail _ hstep ih =>
    obtain ⟨operations, rfl⟩ := ih
    obtain ⟨operation, rfl⟩ := hstep
    refine ⟨operations ++ [operation], ?_⟩
    unfold made
    rw [List.foldl_append]
    rfl

theorem performs_call (call : Call) : Moves Performs call.run := fun _ => .single ⟨.call call, rfl⟩

theorem performs_program (p : Program) : Moves Performs p.declare := by
  unfold Program.declare
  apply Moves.bind (Moves.forM (Call.moves_item performs_call) p.items)
  intro _ t
  exact .single ⟨.consolidate, rfl⟩

theorem performs_markCreated (t : SymbolTable) (created : NameSet) :
    Relation.ReflTransGen Performs t (t.markCreated created) := by
  unfold markCreated
  generalize created.names = names
  induction names generalizing t with
  | nil => exact .refl
  | cons name names ih => exact .head ⟨.mark name, rfl⟩ (ih (t.markInstantiated name))

/-- The table that the declarations of a program leave, whether they are accepted or not. -/
theorem exists_made_of_declare (p : Program) :
    ∃ operations, stateAfter p.declare new = made operations :=
  exists_made_of_performs (performs_program p new)

/-- The table of an accepted program. -/
theorem exists_made_of_analyze {p : Program} {a : Analysis} (h : p.analyze = .ok a) :
    ∃ operations, a.table = made operations := by
  apply exists_made_of_performs
  unfold Program.analyze at h
  cases hrun : p.declare.run new with
  | error e t =>
    rw [hrun] at h
    cases h
  | ok _ t =>
    rw [hrun] at h
    obtain ⟨checked, _, heq⟩ := bind_eq_ok_iff.1 h
    cases heq
    exact ((performs_program p).of_ok hrun).trans (performs_markCreated t checked.2)

/-! ## Completions that may fail -/

section Completions

variable {r : SymbolTable → SymbolTable → Prop}
  (hchild : ∀ (parent : Struct) (child : String), Moves r (mergeChild parent child))

include hchild

/-- What the merge of one struct does, the walk over the tree does. -/
theorem moves_mergeFrom (steps : Nat) (stack : List String) : Moves r (mergeFrom steps stack) := by
  induction steps generalizing stack with
  | zero => exact .pure ()
  | succ steps ih =>
    cases stack with
    | nil => exact .pure ()
    | cons name stack =>
      intro t
      rw [stateAfter]
      cases hs : t.struct? name with
      | none =>
        simp only [mergeFrom, EStateM.run_bind, EStateM.run_get, hs]
        exact ih stack t
      | some s =>
        rw [run_mergeFrom_succ hs]
        exact Moves.bind (.forM (hchild s) _) (fun _ => ih _) t

/-- What the merge of one struct and the final mark do, a completion does, whether it succeeds or
not. -/
theorem moves_consolidate (hmark : ∀ t : SymbolTable, r t { t with consolidated := true }) :
    Moves r consolidate := by
  intro t
  rw [stateAfter, run_consolidate_eq]
  cases t.consolidated with
  | true => exact .refl
  | false =>
    cases t.undeclared?.or t.incomplete? with
    | some e => exact .refl
    | none =>
      have hlast (_ : PUnit) :
          Moves r (modify fun t => { t with consolidated := true } : Declaring PUnit) :=
        fun t => .single (hmark t)
      exact Moves.bind (moves_mergeFrom hchild _ _) hlast t

end Completions

end SymbolTable

/-! ## Merges that may fail -/

namespace Struct

theorem name_recordForm (s : Struct) (form : Form) : (s.recordForm form).name = s.name := by
  cases form with
  | structural => rfl
  | implementation => rfl

theorem MembersChange.name_eq {s s' : Struct} (h : s.MembersChange s') : s'.name = s.name := by
  unfold MembersChange at h
  obtain ⟨_, _, _, _, _, rfl⟩ := h
  rfl

/-- A struct without its members. -/
def frame (s : Struct) : Struct :=
  { s with
    attributes := .empty, methods := .empty, nextMethodSlot := 0, nextAttributeSlot := 0
    consolidated := false }

/-- A merge that changes nothing but the members of the struct. -/
def KeepsFrame (x : Merge Unit) : Prop :=
  ∀ frame, Moves (fun s s' => s.frame = frame → s'.frame = frame) x

namespace KeepsFrame

theorem bind {x y : Merge Unit} (hx : KeepsFrame x) (hy : KeepsFrame y) :
    KeepsFrame (x >>= fun _ => y) :=
  fun frame => .bind (hx frame) fun _ => hy frame

theorem of_modify {f : Struct → Struct} (hf : ∀ s, (f s).frame = s.frame) :
    KeepsFrame (modify f) :=
  fun _ s => .single (hf s).trans

theorem ite {x : Merge Unit} (hx : KeepsFrame x) (b : Bool) :
    KeepsFrame (if b then pure () else x) := by
  cases b with
  | true => exact fun _ => .pure ()
  | false => exact hx

end KeepsFrame

theorem keepsFrame_inheritMethod (ancestor : Method) : KeepsFrame (inheritMethod ancestor) := by
  intro frame s
  apply Relation.ReflTransGen.single
  intro hs
  rw [stateAfter]
  unfold inheritMethod
  simp only [EStateM.run_bind, EStateM.run_get]
  cases s.methods.get? ancestor.name with
  | none => exact hs
  | some own =>
    dsimp only
    cases overrideFault? own ancestor with
    | none => exact hs
    | some fault => exact hs

theorem keepsFrame_inheritAttribute (ancestor : Attr) : KeepsFrame (inheritAttribute ancestor) := by
  intro frame s
  apply Relation.ReflTransGen.single
  intro hs
  rw [stateAfter]
  unfold inheritAttribute
  simp only [EStateM.run_bind, EStateM.run_get]
  cases s.attributes.get? ancestor.name with
  | none => exact hs
  | some own => exact hs

theorem keepsFrame_inheritMethods (inherited : NameMap Method) :
    KeepsFrame (inheritMethods inherited) := by
  apply KeepsFrame.ite
  apply KeepsFrame.bind
  · exact fun frame => .forM (fun a => keepsFrame_inheritMethod a frame) _
  · exact .of_modify fun _ => rfl

theorem keepsFrame_inheritAttributes (inherited : NameMap Attr) :
    KeepsFrame (inheritAttributes inherited) := by
  apply KeepsFrame.ite
  apply KeepsFrame.bind
  · exact fun frame => .forM (fun a => keepsFrame_inheritAttribute a frame) _
  · exact .of_modify fun _ => rfl

/-- A merge changes nothing but the members of a struct, also when it fails on the way. -/
theorem frame_inheritFrom (parent s : Struct) :
    (stateAfter (inheritFrom parent) s).frame = s.frame := by
  have hkeeps : KeepsFrame (inheritFrom parent) := by
    apply KeepsFrame.bind (keepsFrame_inheritMethods parent.methods)
    apply KeepsFrame.bind (keepsFrame_inheritAttributes parent.attributes)
    exact .of_modify fun _ => rfl
  exact (hkeeps s.frame).keeps rfl

end Struct

/-- What the merge of one child can do: nothing, or it changes the members of a struct that has not
been merged.  The merge may stop half-way, and then too the struct is put back. -/
theorem SymbolTable.stateAfter_mergeChild (t : SymbolTable) (parent : Struct) (child : String) :
    stateAfter (mergeChild parent child) t = t ∨
      ∃ s s', t.struct? child = some s ∧ s.consolidated = false ∧ s'.frame = s.frame ∧
        stateAfter (mergeChild parent child) t =
          { t with structs := t.structs.insert child s' } := by
  cases hs : t.struct? child with
  | none =>
    refine .inl ?_
    simp only [stateAfter, mergeChild, EStateM.run_bind, EStateM.run_get, hs]
    rfl
  | some s =>
    have hframe := Struct.frame_inheritFrom parent s
    rw [stateAfter] at hframe
    rw [stateAfter, run_mergeChild hs]
    cases hmerged : s.consolidated with
    | true => exact .inl rfl
    | false =>
      refine .inr ⟨s, stateAfter (Struct.inheritFrom parent) s, rfl, hmerged, hframe, ?_⟩
      rw [stateAfter]
      cases (Struct.inheritFrom parent).run s <;> rfl

/-! ## Names of structs -/

namespace SymbolTable

variable {t t' : SymbolTable}

/-- Every struct is registered under its own name. -/
def Keyed (t : SymbolTable) : Prop := t.structs.KeyedBy Struct.name

theorem keyed_new : new.Keyed := fun _ _ => registry_new.name_eq

/-- A struct that takes its place in the tree keeps its name, and so do those that it moves. -/
theorem Keyed.place (h : t.Keyed) {token : Token} {parent : Option Token} {form : Form}
    (hfree : t.structRefusal? token parent form = none) : (t.place token parent form).Keyed := by
  have hne := fun p hp => ((structRefusal?_eq_none_iff.1 hfree).2.2 p hp).2
  intro n s' hs'
  rcases exists_struct?_place hne hs' with ⟨hn, _, hdetached⟩ | ⟨s, hs, hdetached⟩
  · obtain ⟨p, children, rfl⟩ := Struct.detached_eq_iff.1 hdetached
    exact hn.symm
  · obtain ⟨p, children, rfl⟩ := Struct.detached_eq_iff.1 hdetached
    exact h n s hs

theorem Keyed.setOpenMethod (h : t.Keyed) (m : Method) : (t.setOpenMethod m).Keyed := by
  unfold SymbolTable.setOpenMethod
  cases t.scope with
  | closed | struct owner | start => exact h
  | constructor owner => exact NameMap.KeyedBy.modify h owner fun _ => rfl
  | method owner name => exact NameMap.KeyedBy.modify h owner fun _ => rfl

theorem Step.keyed (hstep : Step t t') (h : t.Keyed) : t'.Keyed := by
  cases hstep with
  | note token =>
    show (t.noteType token).structs.KeyedBy Struct.name
    rw [structs_noteType]
    exact h
  | placed hfree =>
    exact NameMap.KeyedBy.modify (h.place hfree) _ fun s => s.name_recordForm _
  | misplaced hfree => exact h.place hfree
  | addedMethod _ _ hs hadd =>
    have hname := Struct.MembersChange.name_eq (Struct.membersChange_addMethod hadd)
    exact NameMap.KeyedBy.insert h (hname.trans (h _ _ hs))
  | addedAttribute _ hs hadd =>
    have hname := Struct.MembersChange.name_eq (Struct.membersChange_addAttribute hadd)
    exact NameMap.KeyedBy.insert h (hname.trans (h _ _ hs))
  | addedBinding => exact h.setOpenMethod _
  | started | lost | close => exact h

/-- A run that keeps every struct under its own name. -/
def KeepsKeys (x : Declaring Unit) : Prop := Moves (fun t t' => Keyed t → Keyed t') x

theorem keepsKeys_call (call : Call) : KeepsKeys call.run :=
  fun t => Relation.ReflTransGen.mono (fun _ _ => Step.keyed) _ _ (call.moves t)

theorem keepsKeys_mergeChild (parent : Struct) (child : String) :
    KeepsKeys (mergeChild parent child) := by
  intro t
  apply Relation.ReflTransGen.single
  intro h
  rcases stateAfter_mergeChild t parent child with heq | ⟨s, s', hs, _, hframe, heq⟩
  · rwa [heq]
  · have hname : s'.frame.name = s.frame.name := congrArg Struct.name hframe
    rw [heq]
    exact NameMap.KeyedBy.insert h (hname.trans (h child s hs))

/-- One operation keeps every struct under its own name. -/
theorem Keyed.perform (h : t.Keyed) (operation : Operation) : (t.perform operation).Keyed := by
  cases operation with
  | call call => exact (keepsKeys_call call).keeps h
  | consolidate =>
    have hkeeps : KeepsKeys consolidate := moves_consolidate keepsKeys_mergeChild fun _ => id
    exact hkeeps.keeps h
  | mark name => exact NameMap.KeyedBy.modify h name fun _ => rfl

/-- Every struct of a table that operations make is registered under its own name. -/
theorem keyed_made (operations : List Operation) : (made operations).Keyed := by
  have hfold {t : SymbolTable} (h : t.Keyed) : (operations.foldl SymbolTable.perform t).Keyed := by
    induction operations generalizing t with
    | nil => exact h
    | cons operation operations ih => exact ih (h.perform operation)
  exact hfold keyed_new

end SymbolTable

end StructLang
