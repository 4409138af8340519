import StructLang.Proofs.Calls

/-!
# The layout of completed structs

`layout_of_consolidate`: after any calls and a first completion that succeeds, the members of every
declared struct are laid out by the reference rule.  The members of the parent come first, an own
method stands in the place of the one that it overrides, the other own members follow in the order
in which calls declared them, and the slot of a member is its place.
-/

namespace StructLang.SymbolTable

variable {t t' : SymbolTable} {n p : String} {s own sp : Struct}

/-- The members of the completed struct `s`, given the record `own` that it had in the table `t`
before, and the completed record of its parent. -/
structure LaidOut (t : SymbolTable) (own parent s : Struct) : Prop where
  methods : s.methodsBySlot = Method.layout parent.methodsBySlot own.methodsBySlot
  attributes : s.attributesBySlot = Attr.layout parent.attributesBySlot own.attributesBySlot
  /-- The attributes of the parent come first, unchanged but for the mark, slots included. -/
  inherited : parent.attributesBySlot.map Attr.copied <+: s.attributesBySlot
  marked : ∀ a ∈ s.attributesBySlot,
    a.inherited = true ↔ a ∈ parent.attributesBySlot.map Attr.copied
  /-- The marked attributes are those that another struct declares. -/
  owned : ∀ a ∈ s.attributesBySlot, a.inherited = true ↔ a.owner ≠ s.name
  methodSlots : ∀ (i : Nat) (m : Method), s.methodsBySlot[i]? = some m → m.slot = i
  attributeSlots : ∀ (i : Nat) (a : Attr), s.attributesBySlot[i]? = some a → a.slot = i
  constructor : s.constructor = own.constructor
  /-- Apart from its slot, a method is what the struct that owns it declared. -/
  unchanged : ∀ m ∈ s.methodsBySlot, ∃ owner so b, m.owner = some owner ∧
    t.struct? owner = some so ∧ b ∈ so.methodsBySlot ∧ m = { b with slot := m.slot }

theorem laidOut_of_merged (h : t.Sound) (hrooted : ∀ n, t.contains n = true → t.Rooted n)
    (hn : Builtin.structs.contains n = false) (hown : t.struct? n = some own)
    (hp : own.parent = some p) (hmerged : t.Merged n s) (hparent : t.Merged p sp) :
    t.LaidOut own sp s := by
  have hregistered := contains_iff_struct?.2 ⟨own, hown⟩
  have hextends : t.Extends n p := (parent?_of_struct? hown).trans hp
  have hopen := h.hierarchy.open_of_extends h.registry hextends
  obtain ⟨_, _, hp', hparent', hfits, hlaid, hkeeps⟩ :=
    (merged_iff_of_user h hrooted hn hown).1 hmerged
  rw [hp] at hp'
  cases hp'
  cases hparent.unique hparent'
  obtain ⟨sp₀, hsp₀⟩ := hparent.exists_struct?
  have hfrom := hparent.mergedFrom h hrooted (hopen.imp id And.left) hsp₀
  obtain ⟨ms, as, hmembers⟩ := h.contents.own n own hn hown
  have hname : s.name = n := by
    rw [hkeeps]
    show own.name = n
    exact h.registry.name_eq hown
  have hlayout := Struct.attrLayout_eq hfrom.laid.attributes
    (hmembers.laid.attributesBySlot_eq.symm ▸ hmembers.laid.attributes)
  refine ⟨hlaid.methodsBySlot_eq, hlaid.attributesBySlot_eq, ?_, fun a ha => ⟨fun hmark => ?_,
    fun hcopied => ?_⟩, ?_, ?_, ?_, ?_, fun m hm => ?_⟩
  · rw [hlaid.attributesBySlot_eq, hlayout]
    exact List.prefix_append _ _
  · rw [hlaid.attributesBySlot_eq, hlayout, List.mem_append] at ha
    refine ha.resolve_right fun hdeclared => ?_
    obtain ⟨b, hb, rfl⟩ := List.mem_map.1 hdeclared
    have hunmarked := (hmembers.attributes b (hmembers.laid.attributesBySlot_eq ▸ hb)).2
    cases hunmarked.symm.trans hmark
  · obtain ⟨b, _, rfl⟩ := List.mem_map.1 hcopied
    rfl
  · rw [hname]
    exact (hmerged.mergedFrom h hrooted (.inr hn) hown).marks
  · rw [hlaid.methodsBySlot_eq]
    exact hlaid.methods.slots
  · rw [hlaid.attributesBySlot_eq]
    exact hlaid.attributes.slots
  · rw [hkeeps]
  · obtain ⟨a, sa, b, _, howner, hsa, hb, slot, rfl⟩ :=
      hmerged.method_origin h hrooted (.inr hn) _ hm
    exact ⟨a, sa, b, howner, hsa, hb, rfl⟩

/-- After any calls and a first completion that succeeds, every declared struct is laid out by the
reference rule, with its own members in the order of the calls that declared them. -/
theorem layout_of_consolidate {calls : List Call}
    (hrun : consolidate.run (declared calls) = .ok () t) (hs : t.struct? n = some s)
    (huser : s.builtin = false) :
    ∃ p parent own, s.parent = some p ∧ t.struct? p = some parent ∧
      (declared calls).struct? n = some own ∧ own.parent = some p ∧
      (∀ sort, own.tokens sort = history n sort new calls) ∧
      (declared calls).LaidOut own parent s := by
  have h := sound_declared calls
  obtain ⟨hcomplete, _, hcompletes⟩ := (consolidate_eq_ok h (consolidated_declared calls)).1 hrun
  have hrooted : ∀ n, (declared calls).contains n = true → (declared calls).Rooted n :=
    fun n hn => hcomplete.rooted h hn
  have hmerged := (hcompletes.struct?_iff n s).1 hs
  obtain ⟨own, hown⟩ := hmerged.exists_struct?
  have hn : Builtin.structs.contains n = false := by
    cases hbuiltin : Builtin.structs.contains n with
    | false => rfl
    | true =>
      rw [Merged.of_builtin hbuiltin] at hmerged
      rw [h.registry.builtin_eq hmerged, hbuiltin] at huser
      cases huser
  obtain ⟨p, sp, hp, hparent, _, _, hkeeps⟩ := (merged_iff_of_user h hrooted hn hown).1 hmerged
  refine ⟨p, sp, own, ?_, (hcompletes.struct?_iff p sp).2 hparent, hown, hp, fun sort => ?_,
    laidOut_of_merged h hrooted hn hown hp hmerged hparent⟩
  · rw [hkeeps]
    exact hp
  · rw [← tokens_of_struct? hown, tokens_declared calls hn]

/-- Calls that declare a struct `B` before its parent `A`, with a method that overrides one of `A`,
another method, and an attribute.  The last call is refused. -/
def overridingCalls : List Call :=
  let struct (name : String) := Token.builtin .structId name
  let member (name : String) := Token.builtin .objectId name
  let int := Token.builtin .intType "Int"
  [.struct (struct "B") (some (struct "A")) .structural, .var (member "y") int true,
   .struct (struct "A") none .implementation, .method (member ".") .constructor none,
   .method (member "f") .onInstance (some int),
   .struct (struct "B") none .implementation, .method (member ".") .constructor none,
   .method (member "g") .onInstance none, .method (member "f") .onInstance (some int),
   .struct (struct "A") none .structural, .var (member "x") int false, .var (member "x") int false]

theorem layout_of_overridingCalls :
    ∃ t s, consolidate.run (declared overridingCalls) = .ok () t ∧ t.struct? "B" = some s ∧
      s.builtin = false ∧ ∃ p parent own, s.parent = some p ∧ t.struct? p = some parent ∧
        (declared overridingCalls).struct? "B" = some own ∧ own.parent = some p ∧
        (∀ sort, own.tokens sort = history "B" sort new overridingCalls) ∧
        (declared overridingCalls).LaidOut own parent s := by
  have hrun := run_of_succeeds (x := consolidate) (s := declared overridingCalls)
    (by decide +kernel)
  have hfound : ((stateAfter consolidate (declared overridingCalls)).struct? "B").map (·.builtin) =
      some false := by
    decide +kernel
  obtain ⟨s, hs, huser⟩ := Option.map_eq_some_iff.1 hfound
  exact ⟨_, s, hrun, hs, huser, layout_of_consolidate hrun hs huser⟩

end StructLang.SymbolTable
