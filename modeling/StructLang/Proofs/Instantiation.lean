import StructLang.Feedback
import StructLang.Proofs.Creation
import StructLang.Proofs.Readings

/-!
# Marks of created structs

In the table of an accepted program exactly those structs are marked that some body creates, at
whatever depth the `new` stands (`Program.instantiated_iff`).  Before the bodies are checked nothing
is marked (`Completion.unmarked`).  Then the names are marked that the checker has collected on its
way through the bodies, and these are the names that the bodies create (`Program.analyze_eq`).

Among the built-in structs only the root can be created, so the others are never marked; and the
count of created structs in the statistics of a run is the number of the program's own structs that
it creates.
-/

namespace StructLang

open SymbolTable

/-! ## Tables without marks -/

theorem Builtin.entries_unmarked : ∀ e ∈ Builtin.structs.entries, e.2.instantiated = false := by
  decide

namespace SymbolTable

variable {t u : SymbolTable} {n : String} {s : Struct}

/-- Declarations mark nothing. -/
theorem Registry.unmarked (h : t.Registry) (hs : t.struct? n = some s) :
    s.instantiated = false := by
  by_cases hroot : n = Builtin.root
  · obtain ⟨children, hr⟩ := h.root
    rw [hroot, hr] at hs
    cases hs
    rfl
  · cases hget : Builtin.structs.get? n with
    | none => exact (h.user n s (NameMap.contains_eq_false_iff.2 hget) hs).2.2.2
    | some b =>
      rw [h.builtin n b hroot hget] at hs
      cases hs
      exact Builtin.entries_unmarked (n, s) ((NameMap.mem_entries_iff _ _ _).2 hget)

theorem Completion.unmarked (h : Completion u t) (hs : t.struct? n = some s) :
    s.instantiated = false := by
  obtain ⟨own, hown, hkept⟩ := h.kept hs
  have hmark : s.instantiated = own.instantiated := by rw [hkept]
  rw [hmark]
  exact h.sound.registry.unmarked hown

/-! ## Marked structs -/

/-- The names of the declared structs that are marked. -/
def marked (t : SymbolTable) : List String :=
  (t.userStructs.filter (·.instantiated)).map Struct.name

theorem length_marked (t : SymbolTable) :
    t.marked.length = t.userStructs.countP (·.instantiated) := by
  rw [marked, List.length_map, List.countP_eq_length_filter]

theorem nodup_marked (h : t.Keyed) : t.marked.Nodup := by
  have hvalues : t.structs.values.Pairwise fun a b => a.name ≠ b.name := by
    refine (NameMap.KeyedBy.pairwise_values h).imp ?_
    intro a b hlt heq
    exact String.lt_irrefl b.name (heq ▸ hlt)
  exact List.pairwise_map.2 (hvalues.sublist (List.filter_sublist.trans List.filter_sublist))

theorem mem_marked (h : t.Keyed) :
    n ∈ t.marked ↔ ∃ s, t.struct? n = some s ∧ s.builtin = false ∧ s.instantiated = true := by
  simp only [marked, userStructs, List.mem_map, List.mem_filter, NameMap.mem_values_iff,
    Bool.not_eq_true']
  constructor
  · rintro ⟨s, ⟨⟨⟨name, hs⟩, hbuiltin⟩, hmarked⟩, rfl⟩
    cases h name s hs
    exact ⟨s, hs, hbuiltin, hmarked⟩
  · rintro ⟨s, hs, hbuiltin, hmarked⟩
    exact ⟨s, ⟨⟨⟨n, hs⟩, hbuiltin⟩, hmarked⟩, h n s hs⟩

end SymbolTable

/-! ## Accepted programs -/

namespace Program

variable {p : Program} {A : Analysis} {n : String} {s : Struct}

/-- Some body of the program creates a value of the struct. -/
def Creates (p : Program) (name : String) : Prop := ∃ b ∈ p.bodies, b.block.Creates name

/-- The structs that are marked are those that are created. -/
theorem instantiated_iff (h : p.analyze = .ok A) (hs : A.table.struct? n = some s) :
    s.instantiated = true ↔ p.Creates n := by
  obtain ⟨t, hrun, htyped, rfl⟩ := analyze_eq_ok.1 h
  obtain ⟨u, _, _, hcompletion, _⟩ := completion_of_declare hrun
  rw [Analysis.ofTyped, struct?_markCreated] at hs
  obtain ⟨s₀, hs₀, rfl⟩ := Option.map_eq_some_iff.1 hs
  show (s₀.instantiated || _) = true ↔ _
  rw [hcompletion.unmarked hs₀, Bool.false_or, NameSet.contains_ofList, decide_eq_true_iff,
    List.mem_flatMap]
  have hsame : ∀ b ∈ p.bodies, (n ∈ (b.annotated t).block.created ↔ b.block.Creates n) := by
    intro b hb
    obtain ⟨_, block, _, hblock, heq⟩ := Body.infer_eq_ok.1 (htyped b hb)
    rw [heq, Block.mem_created_iff, Block.creates_of_infer hblock]
  constructor
  · rintro ⟨_, hb', hname⟩
    obtain ⟨b, hb, rfl⟩ := List.mem_map.1 hb'
    exact ⟨b, hb, (hsame b hb).1 hname⟩
  · rintro ⟨b, hb, hname⟩
    exact ⟨b.annotated t, List.mem_map_of_mem hb, (hsame b hb).2 hname⟩

/-- Only the root is created among the built-in structs. -/
theorem Creates.eq_root (h : p.analyze = .ok A) (hs : A.table.struct? n = some s)
    (hcreates : p.Creates n) (hbuiltin : s.builtin = true) : n = Builtin.root := by
  obtain ⟨b, hb, hname⟩ := hcreates
  obtain ⟨r⟩ := exists_reading h hb
  obtain ⟨hshape, htyped⟩ := r.assignment
  rw [← Block.creates_map_iff forget, ← hshape, Block.creates_map_iff] at hname
  obtain ⟨_, s', hs', hroot, _⟩ := htyped.constructs hname
  cases hs.symm.trans hs'
  exact hroot hbuiltin

/-- The marks are exact: in the table of an accepted program a struct is marked if and only if some
body creates it; of the built-in structs only the root may be; and the statistics count the structs
of the program that it creates. -/
theorem marks_created_structs (h : p.analyze = .ok A) :
    (∀ name s, A.table.struct? name = some s → (s.instantiated = true ↔ p.Creates name) ∧
      (s.builtin = true → s.instantiated = true → name = Builtin.root)) ∧
    ∃ names : List String, names.Nodup ∧
      (∀ name, name ∈ names ↔
        p.Creates name ∧ ∃ s, A.table.struct? name = some s ∧ s.builtin = false) ∧
      ∀ milliseconds, (Stats.ofAnalysis A milliseconds).instantiated = .ofNat names.length := by
  refine ⟨fun name s hs => ⟨instantiated_iff h hs, fun hbuiltin hmarked => ?_⟩,
    A.table.marked, nodup_marked (keyed_of_analyze h), fun name => ?_, fun milliseconds => ?_⟩
  · exact ((instantiated_iff h hs).1 hmarked).eq_root h hs hbuiltin
  · rw [mem_marked (keyed_of_analyze h)]
    constructor
    · intro ⟨s, hs, hbuiltin, hmarked⟩
      exact ⟨(instantiated_iff h hs).1 hmarked, s, hs, hbuiltin⟩
    · intro ⟨hcreates, s, hs, hbuiltin⟩
      exact ⟨s, hs, hbuiltin, (instantiated_iff h hs).2 hcreates⟩
  · rw [length_marked]
    rfl

/-- A struct `A` that the start creates in the argument of a call, and a struct `B` that is not
created. -/
def creatingItems : List Item :=
  let struct (s : String) := Token.builtin .structId s
  let name (s : String) := Token.builtin .objectId s
  let fresh : Expression Unit := .access ⟨⟨struct "A", .newInstance [], ()⟩, []⟩
  [.struct ⟨struct "A", none, []⟩,
   .impl ⟨struct "A", [⟨name ".", .constructor, [], none, [], []⟩]⟩,
   .struct ⟨struct "B", none, []⟩,
   .impl ⟨struct "B", [⟨name "f", .static, [⟨name "a", struct "A"⟩], none, [], []⟩,
    ⟨name ".", .constructor, [], none, [], []⟩]⟩,
   .start ⟨.builtin .startWord "start", [], [.expression
    (.access ⟨⟨struct "B", .simple, ()⟩, [⟨name "f", .call [fresh], ()⟩]⟩)]⟩]

theorem marks_created_structs_of_creatingItems :
    let p : Program := ⟨creatingItems⟩
    ∃ A, p.analyze = .ok A ∧ p.Creates "A" ∧ ¬ p.Creates "B" ∧
      ∃ names : List String, names.Nodup ∧ "A" ∈ names ∧ "B" ∉ names ∧
        (Stats.ofAnalysis A 0).instantiated = .ofNat names.length := by
  intro p
  have hok : p.analyze.isOk = true := by decide +kernel
  obtain ⟨A, hA⟩ := exists_of_isOk hok
  have hmarks : p.analyze.toOption.map (fun A => ["A", "B"].map fun n =>
      (A.table.struct? n).map fun s => (s.builtin, s.instantiated)) =
      some [some (false, true), some (false, false)] := by decide +kernel
  rw [hA] at hmarks
  obtain ⟨hfirst, hsecond⟩ := List.cons_eq_cons.1 (Option.some.inj hmarks)
  obtain ⟨a, ha, hamark⟩ := Option.map_eq_some_iff.1 hfirst
  obtain ⟨b, hb, hbmark⟩ := Option.map_eq_some_iff.1 (List.cons_eq_cons.1 hsecond).1
  obtain ⟨hexact, names, hnodup, hnames, hcount⟩ := marks_created_structs hA
  have hcreated := (hexact "A" a ha).1.1 (Prod.mk.inj hamark).2
  have hnever : ¬ p.Creates "B" := fun hcreates => by
    cases ((hexact "B" b hb).1.2 hcreates).symm.trans (Prod.mk.inj hbmark).2
  exact ⟨A, hA, hcreated, hnever, names, hnodup,
    (hnames "A").2 ⟨hcreated, a, ha, (Prod.mk.inj hamark).1⟩,
    fun hmem => hnever ((hnames "B").1 hmem).1, hcount 0⟩

end Program

end StructLang
