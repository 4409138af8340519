import Mathlib.Data.List.Forall2
import StructLang.Proofs.Decoding

/-!
# The documents of a record

A record may be written as an object in more than one way: its keys may stand in any order, and a
field that holds its default may be left out.  `ObjectOf fields` holds of all these documents, given
what each field may be written as.  `ObjectOf.exists_cells` says what a decoder finds in any of them:
a cell per field, in the order of the fields, which is the value of the field or tells that the field
is left out.
-/

namespace StructLang.Json

variable {α : Type}

/-- How a field of a record may be written. -/
structure Field where
  name : String
  /-- The documents of its value. -/
  value : Json → Prop
  /-- Whether it may be left out. -/
  omissible : Prop

/-- A field that may not be left out. -/
def Field.always (name : String) (value : Json → Prop) : Field := ⟨name, value, False⟩

/-- The members of an object with the given fields, in the order of the fields. -/
inductive Members : List Field → List (String × Json) → Prop where
  | nil : Members [] []
  | written {f : Field} {fs : List Field} {v : Json} {members : List (String × Json)}
      (hvalue : f.value v) (hrest : Members fs members) : Members (f :: fs) ((f.name, v) :: members)
  | omitted {f : Field} {fs : List Field} {members : List (String × Json)}
      (homissible : f.omissible) (hrest : Members fs members) : Members (f :: fs) members

/-- The objects with the given fields, their keys in any order. -/
def ObjectOf (fields : List Field) (v : Json) : Prop :=
  ∃ members written, Members fields members ∧ members.Perm written ∧ v = .obj written

/-- The objects with a tag as their only key. -/
def VariantOf (tag : String) (contents : Json → Prop) (v : Json) : Prop :=
  ∃ w, contents w ∧ v = .obj [(tag, w)]

/-- The arrays with the given lists of elements. -/
def ArrayOf (elements : List Json → Prop) (v : Json) : Prop :=
  ∃ items, elements items ∧ v = .arr items

/-- The documents of a value that may be missing. -/
def OrNull (form : α → Json → Prop) : Option α → Json → Prop
  | none, v => v = .null
  | some a, v => form a v

theorem Members.objectOf {fs : List Field} {members : List (String × Json)}
    (h : Members fs members) : ObjectOf fs (.obj members) :=
  ⟨members, members, h, .refl _, rfl⟩

theorem arrayOf_arr {elements : List Json → Prop} {items : List Json} (h : elements items) :
    ArrayOf elements (.arr items) :=
  ⟨items, h, rfl⟩

/-! ## Reading the fields -/

/-- What a decoder may find of a field. -/
def Field.Fills (f : Field) : Cell → Prop
  | .given v => f.value v
  | .omitted => f.omissible
  | .cut => False

theorem Members.names_sublist {fs : List Field} {members : List (String × Json)}
    (h : Members fs members) : (members.map Prod.fst).Sublist (fs.map Field.name) := by
  induction h with
  | nil => exact .slnil
  | written _ _ ih => exact ih.cons_cons _
  | omitted _ _ ih => exact ih.cons _

/-- Every field is among the members, or it is left out and its name is no key. -/
theorem Members.exists_of_mem {fs : List Field} {members : List (String × Json)}
    (h : Members fs members) (hnodup : (fs.map Field.name).Nodup) {f : Field} (hf : f ∈ fs) :
    (∃ v, f.value v ∧ (f.name, v) ∈ members) ∨ (f.omissible ∧ f.name ∉ members.map Prod.fst) := by
  induction h with
  | nil => cases hf
  | @written g fs v members hvalue hrest ih =>
    rw [List.map_cons, List.nodup_cons] at hnodup
    rcases List.mem_cons.1 hf with rfl | hf
    · exact .inl ⟨v, hvalue, List.mem_cons_self⟩
    · refine (ih hnodup.2 hf).imp ?_ ?_
      · exact fun ⟨w, hw, hmem⟩ => ⟨w, hw, List.mem_cons_of_mem _ hmem⟩
      · rintro ⟨homissible, hkey⟩
        refine ⟨homissible, ?_⟩
        rw [List.map_cons, List.mem_cons, not_or]
        refine ⟨fun heq => hnodup.1 ?_, hkey⟩
        exact List.mem_map.2 ⟨f, hf, heq⟩
  | @omitted g fs members homissible hrest ih =>
    rw [List.map_cons, List.nodup_cons] at hnodup
    rcases List.mem_cons.1 hf with rfl | hf
    · exact .inr ⟨homissible, fun hkey => hnodup.1 (hrest.names_sublist.subset hkey)⟩
    · exact ih hnodup.2 hf

theorem cellOf_of_not_mem {members : List (String × Json)} {key : String}
    (h : key ∉ members.map Prod.fst) : cellOf members key = .omitted := by
  have hlookup : members.lookup key = none := by
    rw [List.lookup_eq_none_iff]
    intro m hm
    rw [bne_iff_ne]
    exact fun heq => h (heq ▸ List.mem_map_of_mem hm)
  rw [cellOf, hlookup]

/-- A decoder of a record finds every field of its documents, or that it is left out. -/
theorem ObjectOf.exists_cells {fs : List Field} {v : Json} (h : ObjectOf fs v)
    (names : List String) (hnames : fs.map Field.name = names) (hnodup : names.Nodup) :
    ∃ cells, v.fields names = some cells ∧ List.Forall₂ Field.Fills fs cells := by
  subst hnames
  obtain ⟨members, written, hmembers, hperm, rfl⟩ := h
  have hkeys : (written.map Prod.fst).Nodup :=
    (hperm.map _).nodup_iff.1 (hnodup.sublist hmembers.names_sublist)
  refine ⟨(fs.map Field.name).map (cellOf written), ?_, ?_⟩
  · rw [fields, if_pos (all_countP_le_one hkeys _)]
  · rw [List.map_map, List.forall₂_map_right_iff, List.forall₂_same]
    intro f hf
    rcases hmembers.exists_of_mem hnodup hf with ⟨w, hw, hmem⟩ | ⟨homissible, hkey⟩
    · have hcell : cellOf written f.name = .given w := cellOf_of_mem hkeys (hperm.mem_iff.1 hmem)
      rw [Function.comp_apply, hcell]
      exact hw
    · have hcell : cellOf written f.name = .omitted :=
        cellOf_of_not_mem fun hmem => hkey ((hperm.map _).mem_iff.2 hmem)
      rw [Function.comp_apply, hcell]
      exact homissible

theorem record_of_written {names : List String} {build : Nat → List Cell → Option α}
    {fs : List Field} {v : Json} {budget : Nat} {a : α} (h : ObjectOf fs v)
    (hnames : fs.map Field.name = names) (hnodup : names.Nodup)
    (hbuild : ∀ cells, List.Forall₂ Field.Fills fs cells → build budget cells = some a) :
    record names build (budget + 1) v = some a := by
  obtain ⟨cells, hfields, hcells⟩ := h.exists_cells names hnames hnodup
  show (v.fields names).bind (build budget) = some a
  rw [hfields, Option.bind_some, hbuild cells hcells]

section Fills

variable {decode : Json → Option α} {c : Cell} {a : α}

theorem Field.Fills.required {name : String} {value : Json → Prop}
    (h : (Field.always name value).Fills c) (hread : ∀ v, value v → decode v = some a) :
    c.required decode = some a := by
  cases c with
  | given v => exact hread v h
  | omitted | cut => cases h

theorem Field.Fills.withDefault {f : Field} {default : α} (h : f.Fills c)
    (hread : ∀ v, f.value v → decode v = some a) (hdefault : f.omissible → a = default) :
    c.withDefault default decode = some a := by
  cases c with
  | given v => exact hread v h
  | omitted => exact congrArg some (hdefault h).symm
  | cut => cases h

end Fills

theorem ObjectOf.ne_null {fs : List Field} {v : Json} (h : ObjectOf fs v) : v ≠ .null := by
  obtain ⟨_, _, _, _, rfl⟩ := h
  exact nofun

theorem VariantOf.ne_null {tag : String} {contents : Json → Prop} {v : Json}
    (h : VariantOf tag contents v) : v ≠ .null := by
  obtain ⟨_, _, rfl⟩ := h
  exact nofun

/-- A value that may be missing is read from its documents, since no value that is there is written
as `null`. -/
theorem OrNull.read {form : α → Json → Prop} {decode : Json → Option α} {o : Option α} {v : Json}
    (h : OrNull form o v) (hnull : ∀ a v, form a v → v ≠ .null)
    (hread : ∀ a, o = some a → form a v → decode v = some a) : orNull decode v = some o := by
  cases o with
  | none =>
    cases h
    rfl
  | some a => rw [orNull_of_ne_null (hnull a v h), hread a rfl h, Option.map_some]

theorem ArrayOf.read {form : α → Json → Prop} {decode : Decoder α} {xs : List α} {budget : Nat}
    (hread : ∀ x ∈ xs, ∀ v, form x v → decode budget v = some x) {v : Json}
    (h : ArrayOf (List.Forall₂ form xs) v) : Decoder.list decode (budget + 1) v = some xs := by
  obtain ⟨items, hitems, rfl⟩ := h
  show items.mapM (decode budget) = some xs
  induction hitems with
  | nil => rfl
  | @cons x v xs items hx _ ih =>
    rw [List.mapM_cons, hread x List.mem_cons_self v hx,
      ih fun x hx => hread x (List.mem_cons_of_mem _ hx)]
    rfl

end StructLang.Json
