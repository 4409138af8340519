import StructLang.Proofs.Embedding

/-!
# Tables that differ in the tokens of structs only

A struct keeps the token of its first declaration.  Nothing but messages depends on it: two tables
whose structs agree in all but that token (`SymbolTable.Alike`) are each within the other, so they
accept the same bodies, with the same types.  They are still alike

* when they are completed (`Alike.completes`), and
* when the same structs are marked in both (`Alike.markCreated`).
-/

namespace StructLang

/-! ## Structs and tables -/

/-- The structs differ in nothing but their tokens, which have the same lexeme. -/
def Struct.Alike (s s' : Struct) : Prop :=
  ∃ token : Token, token.lexeme = s.name ∧ s' = { s with token }

namespace Struct.Alike

variable {s s' : Struct}

theorem refl (s : Struct) : s.Alike s := ⟨s.token, rfl, rfl⟩

theorem symm (h : s.Alike s') : s'.Alike s := by
  obtain ⟨token, hname, rfl⟩ := h
  exact ⟨s.token, hname.symm, rfl⟩

theorem resembles (h : s.Alike s') : s.Resembles s' := by
  obtain ⟨token, hname, rfl⟩ := h
  exact ⟨token, s.children, hname, rfl⟩

end Struct.Alike

/-- The tables have the same structs, apart from their tokens, and the same start method. -/
structure SymbolTable.Alike (t t' : SymbolTable) : Prop where
  contains : ∀ n, t'.contains n = t.contains n
  structs : ∀ n s, t.struct? n = some s → ∃ s', t'.struct? n = some s' ∧ s.Alike s'
  start : t'.start = t.start

namespace SymbolTable.Alike

variable {t t' : SymbolTable} {n : String} {s : Struct}

theorem of_structs
    (hstructs : ∀ n s, t.struct? n = some s → ∃ s', t'.struct? n = some s' ∧ s.Alike s')
    (hback : ∀ n s', t'.struct? n = some s' → ∃ s, t.struct? n = some s)
    (hstart : t'.start = t.start) : t.Alike t' := by
  refine ⟨fun n => Bool.eq_iff_iff.2 ?_, hstructs, hstart⟩
  rw [contains_iff_struct?, contains_iff_struct?]
  constructor
  · rintro ⟨s', hs'⟩
    exact hback n s' hs'
  · rintro ⟨s, hs⟩
    obtain ⟨s', hs', _⟩ := hstructs n s hs
    exact ⟨s', hs'⟩

theorem symm (h : t.Alike t') : t'.Alike t := by
  refine ⟨fun n => (h.contains n).symm, fun n s' hs' => ?_, h.start.symm⟩
  obtain ⟨s, hs⟩ := contains_iff_struct?.1 ((h.contains n).symm.trans
    (contains_iff_struct?.2 ⟨s', hs'⟩))
  obtain ⟨_, hs'', halike⟩ := h.structs n s hs
  cases hs'.symm.trans hs''
  exact ⟨s, hs, halike.symm⟩

theorem embeds (h : t.Alike t') : t.Embeds t' := by
  refine ⟨fun n s hs => ?_, fun m hm => h.start.trans hm⟩
  obtain ⟨s', hs', halike⟩ := h.structs n s hs
  exact ⟨s', hs', halike.resembles⟩

theorem rooted (h : t.Alike t') (hrooted : ∀ n, t.contains n = true → t.Rooted n) :
    ∀ n, t'.contains n = true → t'.Rooted n :=
  fun n hn => h.embeds.below (hrooted n ((h.contains n).symm.trans hn))

/-- A struct is merged in the same way in two tables that are alike. -/
theorem merged (h : t.Alike t') (hsound : t.Sound) (hsound' : t'.Sound)
    (hrooted : ∀ n, t.contains n = true → t.Rooted n) (hmerged : t.Merged n s) :
    ∃ s', t'.Merged n s' ∧ s.Alike s' := by
  have hrooted' := h.rooted hrooted
  obtain ⟨own, hs⟩ := hmerged.exists_struct?
  obtain ⟨own', hs', _, _, rfl⟩ := h.structs n own hs
  obtain ⟨s', hmerged', token, children, hname, rfl⟩ :=
    h.embeds.merged hsound hsound' hrooted hrooted' hmerged
  obtain rfl : children = s.children :=
    (Merged.children_eq hsound' hrooted' hmerged' hs').trans (Merged.children_eq hsound hrooted hmerged hs).symm
  exact ⟨_, hmerged', token, hname, rfl⟩

/-- Tables that are alike are alike when they are completed. -/
theorem completes (h : t.Alike t') (hsound : t.Sound) (hsound' : t'.Sound)
    (hrooted : ∀ n, t.contains n = true → t.Rooted n) {u u' : SymbolTable} (hu : t.Completes u)
    (hu' : t'.Completes u') : u.Alike u' := by
  refine of_structs (fun n s hs => ?_) (fun n s' hs' => ?_) ?_
  · obtain ⟨s', hmerged, halike⟩ := h.merged hsound hsound' hrooted ((hu.struct?_iff n s).1 hs)
    exact ⟨s', (hu'.struct?_iff n s').2 hmerged, halike⟩
  · obtain ⟨s, hmerged, _⟩ :=
      h.symm.merged hsound' hsound (h.rooted hrooted) ((hu'.struct?_iff n s').1 hs')
    exact ⟨s, (hu.struct?_iff n s).2 hmerged⟩
  · rw [hu.rest, hu'.rest]
    exact h.start

end SymbolTable.Alike

/-! ## Marked structs -/

namespace SymbolTable

theorem struct?_markAll (names : List String) (t : SymbolTable) (n : String) :
    (names.foldl markInstantiated t).struct? n =
      (t.struct? n).map fun s => { s with instantiated := s.instantiated || names.contains n } := by
  induction names generalizing t with
  | nil => simp
  | cons name names ih =>
    rw [List.foldl_cons, ih, struct?, markInstantiated, NameMap.get?_modify]
    by_cases hn : n = name
    · subst hn
      simp [struct?, Function.comp_def]
    · simp [hn, struct?]

theorem start_markAll (names : List String) (t : SymbolTable) :
    (names.foldl markInstantiated t).start = t.start := by
  induction names generalizing t with
  | nil => rfl
  | cons name names ih => exact ih _

variable (t : SymbolTable) (created : NameSet)

theorem struct?_markCreated (n : String) :
    (t.markCreated created).struct? n = (t.struct? n).map fun s =>
      { s with instantiated := s.instantiated || created.contains n } := by
  have hcontains : created.names.contains n = created.contains n := by
    rw [Bool.eq_iff_iff, List.contains_iff_mem, NameMap.mem_names_iff]
  rw [markCreated, struct?_markAll, hcontains]

theorem start_markCreated : (t.markCreated created).start = t.start :=
  start_markAll created.names t

/-- Marks do not change members. -/
theorem covers_markCreated : t.Covers (t.markCreated created) := by
  refine ⟨fun n s hs => ?_, fun m hm => (start_markCreated t created).trans hm⟩
  rw [struct?_markCreated, hs]
  exact ⟨_, rfl, rfl, rfl, rfl, rfl, rfl, rfl⟩

/-- Tables that are alike are alike when the same structs are marked. -/
theorem Alike.markCreated {t t' : SymbolTable} (h : t.Alike t') :
    (t.markCreated created).Alike (t'.markCreated created) := by
  refine of_structs (fun n s hs => ?_) (fun n s' hs' => ?_) ?_
  · rw [struct?_markCreated] at hs
    obtain ⟨s, hfound, rfl⟩ := Option.map_eq_some_iff.1 hs
    obtain ⟨_, hs', token, hname, rfl⟩ := h.structs n s hfound
    rw [struct?_markCreated, hs']
    exact ⟨_, rfl, token, hname, rfl⟩
  · rw [struct?_markCreated] at hs'
    obtain ⟨s', hs', _⟩ := Option.map_eq_some_iff.1 hs'
    obtain ⟨s, hs, _⟩ := h.symm.structs n s' hs'
    rw [struct?_markCreated, hs]
    exact ⟨_, rfl⟩
  · rw [start_markCreated, start_markCreated, h.start]

end SymbolTable

end StructLang
