import StructLang.Proofs.BodyMethods
import StructLang.Proofs.Fragments
import StructLang.Proofs.Operations

/-!
# How accepted bodies are read

Every body of an accepted program has a `Reading`: the method that it is checked against, and the
body with what every expression and every link stands for.  The table is that of the finished
analysis, in which the structs that bodies create are marked; marks do not change what a body means
(`covers_markCreated`).

The method has the owner and the kind of the body, so the struct from which the body sees the others
is the one around it (`name_current_of_reading`).
-/

namespace StructLang

open Items SymbolTable

/-- How an accepted program reads one of its bodies. -/
structure Analysis.Reading (A : Analysis) (b : Body Unit) where
  /-- The method that the body is checked against. -/
  method : Method
  /-- The body with what every expression and every link stands for. -/
  block : Block Receiver
  found : A.table.method? b.owner b.kind b.token.lexeme = some method
  assignment : b.block.Assignment ⟨A.table, method⟩ block

/-- The context in which the body stands. -/
def Analysis.Reading.context {A : Analysis} {b : Body Unit} (r : A.Reading b) : Context :=
  ⟨A.table, r.method⟩

namespace Program

variable {p : Program} {A : Analysis} {b : Body Unit}

/-! ## The table of an analysis -/

/-- The structs of an accepted program are registered under their own names. -/
theorem keyed_of_analyze (h : p.analyze = .ok A) : A.table.Keyed := by
  obtain ⟨operations, hmade⟩ := exists_made_of_analyze h
  rw [hmade]
  exact keyed_made operations

/-- A body of a program has a method, of its owner and its kind. -/
theorem exists_method_of_mem_bodies {t : SymbolTable} (hrun : p.declare.run new = .ok () t)
    (hb : b ∈ p.bodies) :
    ∃ m, t.method? b.owner b.kind b.token.lexeme = some m ∧ m.owner = b.owner ∧
      m.kind = b.kind := by
  obtain ⟨u, h, hitems, hcompletion, _⟩ := completion_of_declare hrun
  obtain ⟨item, hitem, hb⟩ := List.mem_flatMap.1 hb
  cases item with
  | struct d => cases hb
  | impl d =>
    obtain ⟨m, hm, rfl⟩ := List.mem_map.1 hb
    obtain ⟨slot, hslot⟩ := h.exists_method? hitems hcompletion hitem hm
    exact ⟨_, hslot, rfl, rfl⟩
  | start d =>
    rw [List.mem_singleton.1 hb]
    exact ⟨d.method, h.method?_start hitems hcompletion hitem, rfl, rfl⟩

/-! ## Readings -/

/-- Every body of an accepted program has a reading. -/
theorem exists_reading (h : p.analyze = .ok A) (hb : b ∈ p.bodies) : Nonempty (A.Reading b) := by
  obtain ⟨t, _, htyped, hA⟩ := analyze_eq_ok.1 h
  have hcovers : t.Covers A.table := hA ▸ covers_markCreated t _
  obtain ⟨m, block, hm, hblock, _⟩ := Body.infer_eq_ok.1 (hcovers.infer_body (htyped b hb))
  obtain ⟨a, ha⟩ := Block.exists_assignment hblock
  exact ⟨⟨m, a, hm, ha⟩⟩

theorem owner_of_reading (h : p.analyze = .ok A) (hb : b ∈ p.bodies) (r : A.Reading b) :
    r.method.owner = b.owner ∧ r.method.kind = b.kind := by
  obtain ⟨t, hrun, _, hA⟩ := analyze_eq_ok.1 h
  have hcovers : t.Covers A.table := hA ▸ covers_markCreated t _
  obtain ⟨m, hm, howner, hkind⟩ := exists_method_of_mem_bodies hrun hb
  cases r.found.symm.trans (hcovers.method? hm)
  exact ⟨howner, hkind⟩

/-- The current struct of a body is the one whose impl block it stands in. -/
theorem current_of_reading (h : p.analyze = .ok A) (hb : b ∈ p.bodies) (r : A.Reading b) :
    r.context.current = b.owner.bind A.table.struct? := by
  show r.method.owner.bind A.table.struct? = _
  rw [(owner_of_reading h hb r).1]

theorem name_current_of_reading (h : p.analyze = .ok A) (hb : b ∈ p.bodies) (r : A.Reading b) :
    r.context.current.map Struct.name = b.owner := by
  rw [current_of_reading h hb r]
  have hfound := r.found
  cases howner : b.owner with
  | none => rfl
  | some owner =>
    rw [howner] at hfound
    obtain ⟨s, hs, _⟩ := Option.bind_eq_some_iff.1 hfound
    rw [Option.bind_some, hs, Option.map_some, keyed_of_analyze h owner s hs]

end Program

end StructLang
