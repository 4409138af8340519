import StructLang.Proofs.Decoding
import StructLang.Proofs.Operations
import StructLang.Snapshot.Table

/-!
# Snapshots of tables read back

A snapshot is written as a document of records, and reading the document gives the snapshot again.
This holds of every snapshot, whatever texts it carries: `…inverts` says it record by record, with
the nesting that a record needs, and `TableSnapshot.parse?_text` for the document.

The layout of a struct is computed twice, from the table and from its snapshot.  The two agree
(`StructSnapshot.dispatchTable_ofStruct`), and a search of the snapshot by name finds the struct
that the table has under that name, because structs are registered under their own names.
-/

namespace StructLang

open Json

/-! ## Records -/

theorem Position.inverts : Inverts Position.decode Position.toJson 1 := by
  refine .record (by decide) (fun _ => rfl) ?_
  intro p budget _
  simp only [List.map_cons, List.map_nil, Cell.required]
  rw [inverts_word32 p.line budget (Nat.zero_le _), inverts_word32 p.column budget (Nat.zero_le _)]
  rfl

theorem VariableSnapshot.inverts : Inverts VariableSnapshot.decode VariableSnapshot.toJson 1 := by
  refine .record (by decide) (fun _ => rfl) ?_
  intro v budget _
  simp only [List.map_cons, List.map_nil, Cell.required]
  rw [inverts_word64 v.slot budget (Nat.zero_le _)]
  rfl

theorem ParamSnapshot.inverts : Inverts ParamSnapshot.decode ParamSnapshot.toJson 1 := by
  refine .record (by decide) (fun _ => rfl) ?_
  intro p budget _
  simp only [List.map_cons, List.map_nil, Cell.required]
  rw [inverts_word64 p.position budget (Nat.zero_le _)]
  rfl

theorem MethodKind.ofName?_name (kind : MethodKind) : MethodKind.ofName? kind.name = some kind := by
  cases kind <;> rfl

theorem MethodKind.inverts : Inverts MethodKind.decode (fun kind => .str kind.name) 0 :=
  inverts_tag MethodKind.ofName?_name

theorem MethodSnapshot.inverts : Inverts MethodSnapshot.decode MethodSnapshot.toJson 3 := by
  refine .record (by decide) (fun _ => rfl) ?_
  intro m budget hbudget
  simp only [List.map_cons, List.map_nil, Cell.required, Cell.nullable]
  rw [inverts_string.orNull nofun m.owner (Nat.zero_le _),
    MethodKind.inverts m.kind budget (Nat.zero_le _),
    inverts_word64 m.slot budget (Nat.zero_le _),
    ParamSnapshot.inverts.list m.params budget (by omega),
    VariableSnapshot.inverts.list m.locals budget (by omega),
    Position.inverts m.position budget (by omega)]
  rfl

theorem StructSnapshot.inverts : Inverts StructSnapshot.decode StructSnapshot.toJson 5 := by
  refine .record (by decide) (fun _ => rfl) ?_
  intro s budget hbudget
  simp only [List.map_cons, List.map_nil, Cell.required, Cell.nullable]
  rw [inverts_string.orNull nofun s.parent (Nat.zero_le _),
    inverts_string.list s.children budget (by omega),
    Position.inverts s.position budget (by omega),
    MethodSnapshot.inverts.orNull nofun s.constructor (by omega),
    MethodSnapshot.inverts.list s.methods budget (by omega),
    VariableSnapshot.inverts.list s.attributes budget (by omega)]
  rfl

theorem TableSnapshot.inverts : Inverts TableSnapshot.decode TableSnapshot.toJson 7 := by
  refine .record (by decide) (fun _ => rfl) ?_
  intro t budget hbudget
  simp only [List.map_cons, List.map_nil, Cell.required, Cell.nullable]
  rw [StructSnapshot.inverts.list t.structs budget (by omega),
    MethodSnapshot.inverts.orNull nofun t.start (by omega)]
  rfl

/-- The document of a snapshot reads back as the snapshot. -/
theorem TableSnapshot.parse?_text (s : TableSnapshot) : TableSnapshot.parse? s.text = some s :=
  TableSnapshot.inverts.decodeText_pretty (by decide) s

/-! ## Layouts -/

/-- The layout that the snapshot of a struct records is the layout of the struct. -/
theorem StructSnapshot.dispatchTable_ofStruct (s : Struct) :
    (StructSnapshot.ofStruct s).dispatchTable = DispatchTable.ofStruct s := by
  unfold StructSnapshot.dispatchTable DispatchTable.ofStruct StructSnapshot.ofStruct
  dsimp only
  rw [Option.isSome_map, List.map_map, List.map_map]
  rfl

/-- A struct is found in the snapshot of a table under the name that it has in the table. -/
theorem TableSnapshot.struct?_ofTable {t : SymbolTable} (h : t.Keyed) (name : String) :
    (TableSnapshot.ofTable t).struct? name = (t.struct? name).map .ofStruct := by
  unfold TableSnapshot.struct? TableSnapshot.ofTable
  dsimp only
  rw [List.find?_map]
  exact congrArg (Option.map StructSnapshot.ofStruct) (h.find?_values name)

theorem TableSnapshot.dispatchTable?_ofTable {t : SymbolTable} (h : t.Keyed) (name : String) :
    (TableSnapshot.ofTable t).dispatchTable? name = t.dispatchTable? name := by
  unfold TableSnapshot.dispatchTable? SymbolTable.dispatchTable?
  rw [TableSnapshot.struct?_ofTable h, Option.map_map]
  exact congrArg (Option.map · (t.struct? name)) (funext StructSnapshot.dispatchTable_ofStruct)

/-- The document of any table reads back as the snapshot of the table, and every struct has in what
is read the layout that it has in the table.  A name that is not registered has none in either. -/
theorem TableSnapshot.parse?_text_ofTable (operations : List Operation) :
    ∃ s, TableSnapshot.parse? (TableSnapshot.ofTable (SymbolTable.made operations)).text = some s ∧
      s = TableSnapshot.ofTable (SymbolTable.made operations) ∧
      ∀ name, s.dispatchTable? name = (SymbolTable.made operations).dispatchTable? name ∧
        (s.dispatchTable? name = none ↔ (SymbolTable.made operations).contains name = false) := by
  have hkeyed := SymbolTable.keyed_made operations
  refine ⟨_, TableSnapshot.parse?_text _, rfl, ?_⟩
  intro name
  rw [TableSnapshot.dispatchTable?_ofTable hkeyed, SymbolTable.contains_eq_false_iff_struct?]
  unfold SymbolTable.dispatchTable?
  exact ⟨rfl, Option.map_eq_none_iff⟩

end StructLang
