import StructLang.Feedback
import StructLang.Proofs.Nesting
import StructLang.Proofs.RecordForm
import StructLang.Proofs.TableSnapshot

/-!
# Snapshots of bodies read back

Nodes nest as deep as the bodies that they show, so a snapshot of bodies is not always read back.
`Exact decode encode` says when it is: `decode` gives back what `encode` has written where the
document nests within the budget, and nothing elsewhere.  Nodes leave out the fields that are absent,
and `fields_presentMembers` says what a decoder finds in such an object.

`NodeSnapshot.exact`, `BodySnapshot.exact` and `AstSnapshot.exact` build on one another.  A result of
an accepted program is read back where its snapshot of bodies is, one container further down
(`Feedback.decode_accepted`).
-/

namespace StructLang

namespace Json

variable {α : Type} {decode : Decoder α} {encode : α → Json}

/-- `decode` reads what `encode` writes where the document nests within the budget, and only
there. -/
def Exact (decode : Decoder α) (encode : α → Json) : Prop :=
  ∀ (a : α) (budget : Nat) (x : α),
    decode budget (encode a) = some x ↔ x = a ∧ (encode a).nesting ≤ budget

theorem Inverts.exact_of_flat (h : Inverts decode encode 0) (hflat : ∀ a, (encode a).nesting = 0) :
    Exact decode encode := by
  intro a budget x
  rw [h a budget (Nat.zero_le _), hflat, Option.some_inj, eq_comm]
  simp

theorem exact_string : Exact Decoder.string .str := inverts_string.exact_of_flat fun _ => rfl

theorem Exact.list (h : Exact decode encode) : Exact (.list decode) (.ofList encode) := by
  intro xs budget ys
  cases budget with
  | zero =>
    show none = some ys ↔ ys = xs ∧ nestingOfItems (xs.map encode) + 1 ≤ 0
    simp
  | succ budget =>
    rw [nesting_ofList_le]
    show (xs.map encode).mapM (decode budget) = some ys ↔ _
    induction xs generalizing ys with
    | nil => simp [eq_comm]
    | cons x xs ih =>
      simp only [List.map_cons, List.mapM_cons, Option.bind_eq_bind, Option.bind_eq_some_iff,
        h x budget, ih, List.forall_mem_cons]
      constructor
      · rintro ⟨y, ⟨rfl, hy⟩, rest, ⟨rfl, hrest⟩, heq⟩
        cases heq
        exact ⟨rfl, hy, hrest⟩
      · rintro ⟨rfl, hx, hxs⟩
        exact ⟨x, ⟨rfl, hx⟩, xs, ⟨rfl, hxs⟩, rfl⟩

theorem Exact.orNull (h : Exact decode encode) (hnull : ∀ a, encode a ≠ .null) (o : Option α)
    (budget : Nat) (x : Option α) : orNull (decode budget) (.ofOption encode o) = some x ↔
      x = o ∧ (Json.ofOption encode o).nesting ≤ budget := by
  cases o with
  | none =>
    show some none = some x ↔ x = none ∧ 0 ≤ budget
    simp [eq_comm]
  | some a =>
    show Json.orNull (decode budget) (encode a) = some x ↔ x = some a ∧ (encode a).nesting ≤ budget
    rw [orNull_of_ne_null (hnull a), Option.map_eq_some_iff]
    simp only [h a budget]
    constructor
    · rintro ⟨b, ⟨rfl, hle⟩, rfl⟩
      exact ⟨rfl, hle⟩
    · rintro ⟨rfl, hle⟩
      exact ⟨a, ⟨rfl, hle⟩, rfl⟩

/-- A record is read exactly if its fields are. -/
theorem Exact.record {names : List String} {build : Nat → List Cell → Option α}
    {members : α → List (String × Json)} (hnodup : names.Nodup)
    (hnames : ∀ a, (members a).map Prod.fst = names)
    (hbuild : ∀ a budget x, build budget ((members a).map fun m => .given m.2) = some x ↔
      x = a ∧ nestingOfMembers (members a) ≤ budget) :
    Exact (record names build) (fun a => .obj (members a)) := by
  intro a budget x
  cases budget with
  | zero =>
    show none = some x ↔ x = a ∧ nestingOfMembers (members a) + 1 ≤ 0
    simp
  | succ budget =>
    rw [record_obj hnodup (hnames a), hbuild, nesting, Nat.add_le_add_iff_right]

/-- A document is read back from its text if it keeps the limit on nesting, and only then. -/
theorem Exact.decodeText_pretty (h : Exact decode encode) (a x : α) :
    decodeText decode (encode a).pretty = some x ↔
      x = a ∧ (encode a).nesting ≤ nestingLimit := by
  unfold decodeText
  rw [parse_pretty, Option.bind_some]
  exact h a nestingLimit x

/-! ## Objects without their absent members -/

/-- What a decoder finds of a member that may be absent. -/
def Cell.ofOption : Option Json → Cell
  | none => .omitted
  | some v => .given v

theorem mem_presentMembers {members : List (String × Option Json)} {key : String} {v : Json} :
    (key, v) ∈ presentMembers members ↔ (key, some v) ∈ members := by
  simp only [presentMembers, List.mem_filterMap, Option.map_eq_some_iff, Prod.mk.injEq]
  constructor
  · rintro ⟨⟨_, o⟩, hm, w, hw, rfl, rfl⟩
    rw [← hw]
    exact hm
  · exact fun hm => ⟨(key, some v), hm, v, rfl, rfl, rfl⟩

theorem presentMembers_keys_sublist (members : List (String × Option Json)) :
    ((presentMembers members).map Prod.fst).Sublist (members.map Prod.fst) := by
  induction members with
  | nil => exact .slnil
  | cons m members ih =>
    obtain ⟨key, o⟩ := m
    cases o with
    | none => exact ih.cons key
    | some v => exact ih.cons_cons key

/-- A decoder finds every member that is there, and that the others are left out. -/
theorem fields_presentMembers (names : List String) {members : List (String × Option Json)}
    (hnames : members.map Prod.fst = names) (hnodup : names.Nodup) :
    fields names (.obj (presentMembers members)) =
      some (members.map fun m => Cell.ofOption m.2) := by
  subst hnames
  have hkeys := hnodup.sublist (presentMembers_keys_sublist members)
  rw [fields, if_pos (all_countP_le_one hkeys _), List.map_map]
  refine congrArg some (List.map_congr_left ?_)
  rintro ⟨key, o⟩ hm
  cases o with
  | some v => exact cellOf_of_mem hkeys (mem_presentMembers.2 hm)
  | none =>
    apply cellOf_of_not_mem
    intro hkey
    obtain ⟨⟨_, v⟩, hv, rfl⟩ := List.mem_map.1 hkey
    have hsame := List.inj_on_of_nodup_map hnodup (mem_presentMembers.1 hv) hm rfl
    cases congrArg Prod.snd hsame

/-- A record is read from the members that are there. -/
theorem record_presentMembers (names : List String) {members : List (String × Option Json)}
    (hnames : members.map Prod.fst = names) (hnodup : names.Nodup)
    (build : Nat → List Cell → Option α) (budget : Nat) :
    record names build (budget + 1) (.obj (presentMembers members)) =
      build budget (members.map fun m => Cell.ofOption m.2) := by
  show (fields names _).bind (build budget) = _
  rw [fields_presentMembers names hnames hnodup, Option.bind_some]

theorem nestingOfMembers_presentMembers_le {members : List (String × Option Json)} {n : Nat} :
    nestingOfMembers (presentMembers members) ≤ n ↔ ∀ m ∈ members, ∀ v ∈ m.2, v.nesting ≤ n := by
  induction members with
  | nil => simp [presentMembers, nestingOfMembers]
  | cons m members ih =>
    obtain ⟨key, o⟩ := m
    rw [List.forall_mem_cons, ← ih]
    cases o with
    | none => simp [presentMembers]
    | some v => simp [presentMembers, nestingOfMembers]

/-- A member that may be absent is read exactly if its value is. -/
theorem Exact.withDefault_ofOption (h : Exact decode encode) (hnull : ∀ a, encode a ≠ .null)
    (o : Option α) (budget : Nat) (x : Option α) :
    (Cell.ofOption (o.map encode)).withDefault none (Json.orNull (decode budget)) = some x ↔
      x = o ∧ ∀ v ∈ o.map encode, v.nesting ≤ budget := by
  cases o with
  | none =>
    show some none = some x ↔ _
    simp [eq_comm]
  | some a =>
    show Json.orNull (decode budget) (.ofOption encode (some a)) = some x ↔ _
    rw [h.orNull hnull]
    simp [Json.ofOption]

end Json

open Json

/-! ## Nodes -/

theorem Position.exact : Exact Position.decode Position.toJson := by
  refine .record (by decide) (fun _ => rfl) ?_
  intro p budget x
  simp only [List.map_cons, List.map_nil, Cell.required]
  rw [inverts_word32 p.line budget (Nat.zero_le _), inverts_word32 p.column budget (Nat.zero_le _)]
  show some p = some x ↔ x = p ∧ 0 ≤ budget
  simp [eq_comm]

namespace NodeSnapshot

/-- The children of a node are read exactly, if each of them is. -/
theorem withDefault_children {children : List NodeSnapshot}
    (h : ∀ budget xs, (NodeSnapshot.allToJson children).mapM (NodeSnapshot.decode budget) = some xs ↔
      xs = children ∧ nestingOfItems (NodeSnapshot.allToJson children) ≤ budget)
    (budget : Nat) (xs : List NodeSnapshot) :
    (Cell.ofOption (if children.isEmpty then none
        else some (.arr (NodeSnapshot.allToJson children)))).withDefault []
      (NodeSnapshot.decodeList budget) = some xs ↔ xs = children ∧
        ∀ v ∈ (if children.isEmpty then none else some (Json.arr (NodeSnapshot.allToJson children))),
          v.nesting ≤ budget := by
  cases children with
  | nil =>
    show some [] = some xs ↔ _
    simp [eq_comm]
  | cons n children =>
    show NodeSnapshot.decodeList budget (.arr (NodeSnapshot.allToJson (n :: children))) = some xs ↔ _
    cases budget with
    | zero =>
      rw [NodeSnapshot.decodeList]
      · simp [nesting]
      · exact nofun
    | succ budget =>
      rw [NodeSnapshot.decodeList, h]
      simp [nesting]

mutual

theorem exact : Exact NodeSnapshot.decode NodeSnapshot.toJson
  | ⟨node, token, position, resultType, children⟩, 0, x => by
    rw [NodeSnapshot.decode, NodeSnapshot.toJson, nesting]
    simp
  | ⟨node, token, position, resultType, children⟩, budget + 1, x => by
    rw [NodeSnapshot.decode, NodeSnapshot.toJson, nesting, Nat.add_le_add_iff_right,
      fields_presentMembers ["node", "token", "position", "result_type", "children"] rfl (by decide),
      nestingOfMembers_presentMembers_le]
    simp only [List.map_cons, List.map_nil, List.forall_mem_cons, Option.bind_eq_bind,
      Option.bind_eq_some_iff, exact_string.withDefault_ofOption nofun,
      Position.exact.withDefault_ofOption nofun, withDefault_children (exact_children children)]
    constructor
    · rintro ⟨_, hnode, _, ⟨rfl, htoken⟩, _, ⟨rfl, hposition⟩, _, ⟨rfl, htype⟩, _,
        ⟨rfl, hchildren⟩, heq⟩
      cases hnode
      cases heq
      refine ⟨rfl, ?_, htoken, hposition, htype, hchildren, nofun⟩
      rintro _ ⟨⟩
      exact Nat.zero_le _
    · rintro ⟨rfl, _, htoken, hposition, htype, hchildren, _⟩
      exact ⟨node, rfl, token, ⟨rfl, htoken⟩, position, ⟨rfl, hposition⟩, resultType, ⟨rfl, htype⟩,
        children, ⟨rfl, hchildren⟩, rfl⟩

theorem exact_children : ∀ (ns : List NodeSnapshot) (budget : Nat) (xs : List NodeSnapshot),
    (NodeSnapshot.allToJson ns).mapM (NodeSnapshot.decode budget) = some xs ↔
      xs = ns ∧ nestingOfItems (NodeSnapshot.allToJson ns) ≤ budget
  | [], budget, xs => by simp [NodeSnapshot.allToJson, nestingOfItems, eq_comm]
  | n :: ns, budget, xs => by
    simp only [NodeSnapshot.allToJson, nestingOfItems, List.mapM_cons, Option.bind_eq_bind,
      Option.bind_eq_some_iff, exact n budget, exact_children ns budget, Nat.max_le]
    constructor
    · rintro ⟨y, ⟨rfl, hy⟩, rest, ⟨rfl, hrest⟩, heq⟩
      cases heq
      exact ⟨rfl, hy, hrest⟩
    · rintro ⟨rfl, hn, hns⟩
      exact ⟨n, ⟨rfl, hn⟩, ns, ⟨rfl, hns⟩, rfl⟩

end

end NodeSnapshot

/-! ## Documents of bodies -/

theorem BodySnapshot.exact : Exact BodySnapshot.decode BodySnapshot.toJson := by
  refine .record (by decide) (fun _ => rfl) ?_
  intro b budget x
  simp only [List.map_cons, List.map_nil, Cell.required, Cell.nullable]
  rw [inverts_string.orNull nofun b.owner (Nat.zero_le _),
    MethodKind.inverts b.kind budget (Nat.zero_le _)]
  have howner : (Json.ofOption Json.str b.owner).nesting = 0 := by
    cases b.owner <;> rfl
  simp only [nestingOfMembers, howner, nesting, Option.bind_eq_bind, Option.bind_eq_some_iff,
    NodeSnapshot.exact b.body budget]
  constructor
  · rintro ⟨_, ⟨⟩, _, ⟨⟩, _, ⟨⟩, _, ⟨rfl, hbody⟩, ⟨⟩⟩
    exact ⟨rfl, by omega⟩
  · rintro ⟨rfl, hbody⟩
    exact ⟨_, rfl, _, rfl, _, rfl, _, ⟨rfl, by omega⟩, rfl⟩

theorem AstSnapshot.exact : Exact AstSnapshot.decode AstSnapshot.toJson := by
  refine .record (by decide) (fun _ => rfl) ?_
  intro a budget x
  simp only [List.map_cons, List.map_nil, Cell.required, nestingOfMembers, Option.bind_eq_bind,
    Option.bind_eq_some_iff, BodySnapshot.exact.list a.bodies budget, Nat.max_zero]
  constructor
  · rintro ⟨_, ⟨rfl, hbodies⟩, ⟨⟩⟩
    exact ⟨rfl, hbodies⟩
  · rintro ⟨rfl, hbodies⟩
    exact ⟨_, ⟨rfl, hbodies⟩, rfl⟩

/-! ## Results of runs -/

theorem Stats.inverts : Inverts Stats.decode Stats.toJson 1 := by
  refine .record (by decide) (fun _ => rfl) ?_
  intro s budget _
  simp only [List.map_cons, List.map_nil, Cell.required]
  rw [inverts_word64 s.milliseconds budget (Nat.zero_le _),
    inverts_word64 s.structs budget (Nat.zero_le _), inverts_word64 s.bodies budget (Nat.zero_le _),
    inverts_word64 s.instantiated budget (Nat.zero_le _)]
  rfl

/-- The result of an accepted program is read where its snapshot of bodies is: nothing else in it
nests deeper than a table. -/
theorem Feedback.decode_accepted (sourceFile : String) (a : Analysis) (stats : Stats) {budget : Nat}
    (hbudget : 7 ≤ budget) (x : Feedback) :
    Feedback.decode (budget + 1) (Feedback.accepted sourceFile a stats).toJson = some x ↔
      x = .accepted sourceFile a stats ∧ (AstSnapshot.ofBodies a.bodies).toJson.nesting ≤ budget := by
  rw [Feedback.decode, Feedback.toJson, record_presentMembers
    ["success", "source_file", "diagnostics", "stats", "table", "ast"] rfl (by decide)]
  simp only [Feedback.accepted, List.map_cons, List.map_nil, Option.map_some, Cell.ofOption,
    Cell.required, Cell.withDefault]
  have hdiagnostics : Decoder.list Report.decode budget (.ofList Report.toJson []) = some [] := by
    obtain ⟨budget, rfl⟩ : ∃ rest, budget = rest + 1 := ⟨budget - 1, by omega⟩
    rfl
  have htableNull : ∀ t : TableSnapshot, t.toJson ≠ .null := by
    intro t h
    cases h
  have hastNull : ∀ t : AstSnapshot, t.toJson ≠ .null := by
    intro t h
    cases h
  have htable := TableSnapshot.inverts.orNull htableNull (some (.ofTable a.table)) hbudget
  have hast := AstSnapshot.exact.orNull hastNull (some (.ofBodies a.bodies)) budget
  simp only [Json.ofOption] at htable hast
  rw [hdiagnostics, Stats.inverts stats budget (by omega), htable]
  simp only [Option.bind_eq_bind, Option.bind_eq_some_iff, hast]
  constructor
  · rintro ⟨_, ⟨⟩, _, ⟨⟩, _, ⟨⟩, _, ⟨⟩, _, ⟨⟩, _, ⟨rfl, hnesting⟩, ⟨⟩⟩
    exact ⟨rfl, hnesting⟩
  · rintro ⟨rfl, hnesting⟩
    exact ⟨_, rfl, _, rfl, _, rfl, _, rfl, _, rfl, _, ⟨rfl, hnesting⟩, rfl⟩

end StructLang
