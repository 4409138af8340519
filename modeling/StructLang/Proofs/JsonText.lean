import Mathlib.Tactic.IntervalCases
import StructLang.Json.Reader
import StructLang.Json.Writer

/-!
# Written JSON reads back

`parse_pretty`: the document of every JSON value reads as the value, whatever texts it holds and
however deep it is.  The two halves of the reader are treated one after the other, with the lexemes
of a value (`lexemes`) between them.

* The scanner.  `Spells text ls` says that a text leaves the lexemes `ls`.  A number has no end of
  its own: the scanner is still inside it, and the character after it has to part it from what
  follows (`Scanner.Rests`, `Separates`).  `Encloses` is for texts that end outside of all lexemes.
* The reader.  From a place where a value is expected, the lexemes of a value lead to its delivery
  (`read_lexemes`).
-/

namespace StructLang.Json

/-! ## The scanner at rest -/

/-- The scanner after a text. -/
def Scanner.run (s : Scanner) (text : String) : Option Scanner := text.toList.foldlM Scanner.step s

theorem Scanner.run_append (s : Scanner) (a b : String) :
    s.run (a ++ b) = (s.run a).bind (·.run b) := by
  unfold run
  rw [String.toList_append, List.foldlM_append]
  rfl

theorem Scanner.run_singleton (s : Scanner) (c : Char) : s.run (String.singleton c) = s.step c := by
  unfold run
  rw [String.toList_singleton, List.foldlM_cons]
  exact bind_pure _

/-- A character that ends every number before it. -/
def Parts (c : Char) : Prop := digitValue? c = none ∧ c ≠ '.' ∧ c ≠ 'e' ∧ c ≠ 'E'

/-- The scanner has finished the given lexemes, listed from last to first, up to the end of a
number. -/
inductive Scanner.Rests : Scanner → List Lexeme → Prop where
  | between (done : List Lexeme) : Rests ⟨.between, done⟩ done
  | number {part : NumberPart} {lexeme : Lexeme} (done : List Lexeme)
      (hend : part.lexeme? = some lexeme) : Rests ⟨.number part, done⟩ (lexeme :: done)

theorem NumberPart.next?_eq_none {part : NumberPart} {lexeme : Lexeme} {c : Char}
    (hend : part.lexeme? = some lexeme) (hc : Parts c) : part.next? c = none := by
  obtain ⟨hdigit, hpoint, he, hE⟩ := hc
  cases part
  case minus | point | exponent | exponentSign => cases hend
  all_goals simp [NumberPart.next?, hdigit, hpoint, he, hE]

theorem Scanner.Rests.step_eq {s : Scanner} {done : List Lexeme} (h : s.Rests done) {c : Char}
    (hc : Parts c) : s.step c = enter done c := by
  cases h with
  | between => rfl
  | number done hend =>
    unfold Scanner.step
    simp only [NumberPart.next?_eq_none hend hc, hend, Option.bind_some]

theorem Scanner.Rests.finish_eq {s : Scanner} {done : List Lexeme} (h : s.Rests done) :
    s.finish = some done.reverse := by
  cases h with
  | between => rfl
  | number done hend =>
    unfold Scanner.finish
    simp only [hend, Option.map_some]

/-! ## Texts and their lexemes -/

/-- Outside of all lexemes, the text leaves the given lexemes. -/
def Spells (text : String) (ls : List Lexeme) : Prop :=
  ∀ done, ∃ s, Scanner.run ⟨.between, done⟩ text = some s ∧ s.Rests (ls.reverse ++ done)

/-- Outside of all lexemes, the text leaves the given lexemes and ends outside of all lexemes. -/
def Encloses (text : String) (ls : List Lexeme) : Prop :=
  ∀ done, Scanner.run ⟨.between, done⟩ text = some ⟨.between, ls.reverse ++ done⟩

/-- The text parts a number before it from what follows. -/
def Separates (text : String) : Prop := ∃ c cs, text.toList = c :: cs ∧ Parts c

section Compose

variable {a b : String} {ls ms : List Lexeme}

theorem Encloses.spells (h : Encloses a ls) : Spells a ls := fun done => ⟨_, h done, .between _⟩

theorem Encloses.append (ha : Encloses a ls) (hb : Encloses b ms) :
    Encloses (a ++ b) (ls ++ ms) := by
  intro done
  rw [Scanner.run_append, ha, Option.bind_some, hb, List.reverse_append, List.append_assoc]

theorem Spells.append (ha : Spells a ls) (hb : Encloses b ms) (hseparates : Separates b) :
    Encloses (a ++ b) (ls ++ ms) := by
  intro done
  obtain ⟨s, hrun, hrests⟩ := ha done
  obtain ⟨c, cs, hchars, hc⟩ := hseparates
  -- after the first character it does not matter whether the scanner was inside a number
  have hsame : s.run b = Scanner.run ⟨.between, ls.reverse ++ done⟩ b := by
    unfold Scanner.run
    rw [hchars, List.foldlM_cons, List.foldlM_cons, hrests.step_eq hc]
    rfl
  rw [Scanner.run_append, hrun, Option.bind_some, hsame, hb, List.reverse_append, List.append_assoc]

theorem Separates.append (ha : Separates a) (b : String) : Separates (a ++ b) := by
  obtain ⟨c, cs, hchars, hc⟩ := ha
  refine ⟨c, cs ++ b.toList, ?_, hc⟩
  rw [String.toList_append, hchars, List.cons_append]

theorem Spells.scan_eq (h : Spells a ls) : Lexeme.scan a.toList = some ls := by
  obtain ⟨s, hrun, hrests⟩ := h []
  unfold Scanner.run at hrun
  unfold Lexeme.scan
  rw [hrun, Option.bind_some, hrests.finish_eq, List.append_nil, List.reverse_reverse]

end Compose

/-! ## Numbers -/

/-- How far the scanner is after all digits of a number. -/
def wholePart (n : Nat) : NumberPart := if n = 0 then .zero else .whole n

theorem enter_digitChar {d : Nat} (hd : d < 10) (done : List Lexeme) :
    enter done d.digitChar = some ⟨.number (wholePart d), done⟩ := by
  interval_cases d <;> rfl

theorem digitValue?_digitChar {d : Nat} (hd : d < 10) : digitValue? d.digitChar = some d := by
  interval_cases d <;> rfl

theorem run_repr (n : Nat) (done : List Lexeme) :
    Scanner.run ⟨.between, done⟩ n.repr = some ⟨.number (wholePart n), done⟩ := by
  induction n using Nat.strongRecOn with
  | ind n ih =>
    by_cases hn : n < 10
    · rw [Nat.repr_of_lt hn, Scanner.run_singleton]
      exact enter_digitChar hn done
    · have hpositive : n / 10 ≠ 0 := by omega
      have hlast : n % 10 < 10 := by omega
      have hvalue : 10 * (n / 10) + n % 10 = n := by omega
      have hzero : n ≠ 0 := by omega
      rw [Nat.repr_of_ge (by omega), Scanner.run_append, ih (n / 10) (by omega), Option.bind_some,
        Scanner.run_singleton, wholePart, if_neg hpositive, wholePart, if_neg hzero]
      unfold Scanner.step
      simp only [NumberPart.next?, digitValue?_digitChar hlast, hvalue]

theorem spells_nat (n : Nat) : Spells (toString n) [.natural n] := by
  intro done
  rw [Nat.toString_eq_repr, run_repr]
  refine ⟨_, rfl, .number done ?_⟩
  unfold wholePart
  split
  · next hn => rw [hn]; rfl
  · rfl

/-! ## Texts -/

theorem hexValue?_hexDigit {d : Nat} (hd : d < 16) : hexValue? (hexDigit d) = some d := by
  interval_cases d <;> rfl

/-- The characters with an escape of their own. -/
def shortEscapes : List Char := ['"', '\\', '\x08', '\x0c', '\n', '\r', '\t']

theorem run_escape_of_mem {c : Char} (hc : c ∈ shortEscapes) (units : List Nat)
    (done : List Lexeme) :
    Scanner.run ⟨.text units, done⟩ (escape c) = some ⟨.text (c.toNat :: units), done⟩ := by
  unfold shortEscapes at hc
  simp only [List.mem_cons, List.not_mem_nil, or_false] at hc
  rcases hc with rfl | rfl | rfl | rfl | rfl | rfl | rfl <;> rfl

theorem escape_of_not_mem {c : Char} (hc : c ∉ shortEscapes) :
    escape c = if c < ' ' then
      "\\u00" ++ String.ofList [hexDigit (c.toNat / 16), hexDigit (c.toNat % 16)]
    else String.singleton c := by
  unfold shortEscapes at hc
  simp only [List.mem_cons, List.not_mem_nil, or_false, not_or] at hc
  obtain ⟨hquote, hbackslash, hb, hf, hn, hr, ht⟩ := hc
  unfold escape
  simp only [beq_iff_eq, hquote, hbackslash, hb, hf, hn, hr, ht, if_false]

/-- The spelling of a character inside a text leaves the character. -/
theorem run_escape (c : Char) (units : List Nat) (done : List Lexeme) :
    Scanner.run ⟨.text units, done⟩ (escape c) = some ⟨.text (c.toNat :: units), done⟩ := by
  by_cases hc : c ∈ shortEscapes
  · exact run_escape_of_mem hc units done
  rw [escape_of_not_mem hc]
  by_cases hcontrol : c < ' '
  · -- a control character has two digits
    have hsmall : c.toNat < 32 := hcontrol
    have hhigh : hexValue? (hexDigit (c.toNat / 16)) = some (c.toNat / 16) :=
      hexValue?_hexDigit (by omega)
    have hlow : hexValue? (hexDigit (c.toNat % 16)) = some (c.toNat % 16) :=
      hexValue?_hexDigit (by omega)
    have hvalue : 16 * (c.toNat / 16) + c.toNat % 16 = c.toNat := by omega
    have hstart : Scanner.run ⟨.text units, done⟩ "\\u00" = some ⟨.hex units 2 0, done⟩ := rfl
    rw [if_pos hcontrol, Scanner.run_append, hstart, Option.bind_some, Scanner.run,
      String.toList_ofList]
    simp [Scanner.step, hhigh, hlow, hvalue]
  · have hquote : c ≠ '"' := by
      rintro rfl
      exact hc (by decide)
    have hbackslash : c ≠ '\\' := by
      rintro rfl
      exact hc (by decide)
    rw [if_neg hcontrol, Scanner.run_singleton]
    unfold Scanner.step
    simp only [beq_iff_eq, hquote, hbackslash, hcontrol, if_false]

theorem run_escapes (cs : List Char) (units : List Nat) (done : List Lexeme) :
    Scanner.run ⟨.text units, done⟩ (String.join (cs.map escape)) =
      some ⟨.text ((cs.map Char.toNat).reverse ++ units), done⟩ := by
  induction cs generalizing units with
  | nil => rfl
  | cons c cs ih =>
    rw [List.map_cons, String.join_cons, Scanner.run_append, run_escape, Option.bind_some, ih,
      List.map_cons, List.reverse_cons, List.append_assoc]
    rfl

/-- No character is half of a surrogate pair. -/
theorem not_surrogate (c : Char) : isTrail c.toNat = false ∧ isLead c.toNat = false := by
  have hvalid : c.toNat < 0xd800 ∨ 0xdfff < c.toNat ∧ c.toNat < 0x110000 := c.valid
  unfold isTrail isLead
  simp only [Bool.and_eq_false_iff, decide_eq_false_iff_not]
  omega

theorem joinUnits_map_toNat (cs chars : List Char) :
    joinUnits chars (cs.map Char.toNat) = some (cs.reverse ++ chars) := by
  induction cs generalizing chars with
  | nil => rfl
  | cons c cs ih =>
    obtain ⟨htrail, hlead⟩ := not_surrogate c
    rw [List.map_cons, joinUnits.eq_def]
    simp only [htrail, hlead, Bool.false_eq_true, if_false]
    rw [Char.ofNat_toNat, ih, List.reverse_cons, List.append_assoc]
    rfl

theorem textOfUnits_eq (s : String) :
    textOfUnits (s.toList.map Char.toNat).reverse = some s := by
  unfold textOfUnits
  rw [← List.map_reverse, joinUnits_map_toNat, List.reverse_reverse, List.append_nil,
    Option.map_some, String.ofList_toList]

theorem encloses_quote (s : String) : Encloses (quote s) [.text (some s)] := by
  intro done
  have hopen : Scanner.run ⟨.between, done⟩ "\"" = some ⟨.text [], done⟩ := rfl
  unfold quote
  rw [Scanner.run_append, Scanner.run_append, hopen, Option.bind_some, run_escapes,
    Option.bind_some, List.append_nil]
  show some (Scanner.mk .between (.text (textOfUnits _) :: done)) = _
  rw [textOfUnits_eq]
  rfl

/-! ## Line breaks -/

theorem encloses_lineBreak (level : Nat) : Encloses (lineBreak level) [] := by
  intro done
  have hblanks : ∀ k, Scanner.run ⟨.between, done⟩ (String.ofList (List.replicate k ' ')) =
      some ⟨.between, done⟩ := by
    intro k
    unfold Scanner.run
    rw [String.toList_ofList]
    induction k with
    | zero => rfl
    | succ k ih => exact ih
  unfold lineBreak
  rw [Scanner.run_append]
  exact hblanks _

theorem separates_lineBreak (level : Nat) : Separates (lineBreak level) :=
  Separates.append ⟨'\n', [], rfl, by decide, by decide, by decide, by decide⟩ _

theorem separates_comma : Separates "," := ⟨',', [], rfl, by decide, by decide, by decide, by decide⟩

/-! ## Values -/

mutual

/-- The lexemes of a value. -/
def lexemes : Json → List Lexeme
  | null => [.null]
  | bool b => [.bool b]
  | nat n => [.natural n]
  | str s => [.text (some s)]
  | arr [] => [.openArray, .closeArray]
  | arr (v :: rest) => .openArray :: (lexemes v ++ (itemLexemes rest ++ [.closeArray]))
  | obj [] => [.openObject, .closeObject]
  | obj ((k, v) :: rest) =>
    .openObject :: .text (some k) :: .colon :: (lexemes v ++ (memberLexemes rest ++ [.closeObject]))
  | foreign => [.otherNumber]

/-- The lexemes of the elements after the first one. -/
def itemLexemes : List Json → List Lexeme
  | [] => []
  | v :: rest => .comma :: (lexemes v ++ itemLexemes rest)

/-- The lexemes of the members after the first one. -/
def memberLexemes : List (String × Json) → List Lexeme
  | [] => []
  | (k, v) :: rest => .comma :: .text (some k) :: .colon :: (lexemes v ++ memberLexemes rest)

end

/-- What may follow the first element: a text that parts it and ends outside of all lexemes. -/
def Follows (text : String) (ls : List Lexeme) : Prop := Encloses text ls ∧ Separates text

theorem follows_close (level : Nat) {close : String} {ls : List Lexeme}
    (hclose : Encloses close ls) : Follows (lineBreak level ++ close) ls :=
  ⟨(encloses_lineBreak level).append hclose, (separates_lineBreak level).append _⟩

theorem encloses_key (k : String) : Encloses (quote k ++ ": ") [.text (some k), .colon] := by
  have hcolon : Encloses ": " [.colon] := fun _ => rfl
  exact (encloses_quote k).append hcolon

mutual

/-- The text of a value spells its lexemes. -/
theorem spells_prettyAt (level : Nat) : ∀ v : Json, Spells (prettyAt level v) (lexemes v)
  | null => by
    rw [prettyAt, lexemes]
    exact Encloses.spells fun _ => rfl
  | bool true => by
    rw [prettyAt, lexemes]
    exact Encloses.spells fun _ => rfl
  | bool false => by
    rw [prettyAt, lexemes]
    exact Encloses.spells fun _ => rfl
  | nat n => by
    rw [prettyAt, lexemes]
    exact spells_nat n
  | str s => by
    rw [prettyAt, lexemes]
    exact (encloses_quote s).spells
  | arr [] => by
    rw [prettyAt, lexemes]
    exact Encloses.spells fun _ => rfl
  | arr (v :: rest) => by
    have hopen : Encloses "[" [.openArray] := fun _ => rfl
    have hclose : Encloses "]" [.closeArray] := fun _ => rfl
    have hrest := follows_prettyItems (level + 1) rest (follows_close level hclose)
    have hbody := (spells_prettyAt (level + 1) v).append hrest.1 hrest.2
    have hall := (hopen.append (encloses_lineBreak (level + 1))).append hbody
    rw [prettyAt, lexemes]
    simp only [String.append_assoc] at hall ⊢
    exact hall.spells
  | obj [] => by
    rw [prettyAt, lexemes]
    exact Encloses.spells fun _ => rfl
  | obj ((k, v) :: rest) => by
    have hopen : Encloses "\x7b" [.openObject] := fun _ => rfl
    have hclose : Encloses "\x7d" [.closeObject] := fun _ => rfl
    have hrest := follows_prettyMembers (level + 1) rest (follows_close level hclose)
    have hbody := (spells_prettyAt (level + 1) v).append hrest.1 hrest.2
    have hall := ((hopen.append (encloses_lineBreak (level + 1))).append (encloses_key k)).append
      hbody
    rw [prettyAt, lexemes]
    simp only [String.append_assoc] at hall ⊢
    exact hall.spells
  | foreign => by
    intro done
    rw [prettyAt, lexemes]
    exact ⟨⟨.number .negativeWhole, done⟩, rfl, .number done rfl⟩

theorem follows_prettyItems (level : Nat) {tail : String} {ls : List Lexeme} :
    ∀ items : List Json, Follows tail ls →
      Follows (prettyItems level items ++ tail) (itemLexemes items ++ ls)
  | [], h => by
    rw [prettyItems, itemLexemes, String.empty_append, List.nil_append]
    exact h
  | v :: rest, h => by
    have hcomma : Encloses "," [.comma] := fun _ => rfl
    have hrest := follows_prettyItems level rest h
    have hbody := (spells_prettyAt level v).append hrest.1 hrest.2
    have hall := (hcomma.append (encloses_lineBreak level)).append hbody
    rw [prettyItems, itemLexemes]
    simp only [String.append_assoc, List.append_assoc, List.cons_append] at hall ⊢
    exact ⟨hall, separates_comma.append _⟩

theorem follows_prettyMembers (level : Nat) {tail : String} {ls : List Lexeme} :
    ∀ members : List (String × Json), Follows tail ls →
      Follows (prettyMembers level members ++ tail) (memberLexemes members ++ ls)
  | [], h => by
    rw [prettyMembers, memberLexemes, String.empty_append, List.nil_append]
    exact h
  | (k, v) :: rest, h => by
    have hcomma : Encloses "," [.comma] := fun _ => rfl
    have hrest := follows_prettyMembers level rest h
    have hbody := (spells_prettyAt level v).append hrest.1 hrest.2
    have hall := ((hcomma.append (encloses_lineBreak level)).append (encloses_key k)).append hbody
    rw [prettyMembers, memberLexemes]
    simp only [String.append_assoc, List.append_assoc, List.cons_append] at hall ⊢
    exact ⟨hall, separates_comma.append _⟩

end

/-! ## The reader -/

/-- No value starts with the end of an array, so the place of a first element takes it. -/
theorem read_firstItem (stack : List Frame) (v : Json) :
    (lexemes v).foldlM Reader.step ⟨stack, .firstItem⟩ =
      (lexemes v).foldlM Reader.step ⟨stack, .value⟩ := by
  cases v with
  | arr items => cases items <;> rfl
  | obj members => rcases members with _ | ⟨⟨k, v⟩, rest⟩ <;> rfl
  | _ => rfl

mutual

/-- Where a value is expected, the lexemes of a value lead to its delivery. -/
theorem read_lexemes (stack : List Frame) : ∀ v : Json,
    (lexemes v).foldlM Reader.step ⟨stack, .value⟩ = some (Reader.deliver stack v)
  | null => rfl
  | bool b => rfl
  | nat n => rfl
  | str s => rfl
  | arr [] => rfl
  | arr (v :: rest) => by
    rw [lexemes, List.foldlM_cons]
    show List.foldlM Reader.step ⟨.array [] :: stack, .firstItem⟩ (lexemes v ++ _) = _
    rw [List.foldlM_append, read_firstItem, read_lexemes]
    show List.foldlM Reader.step ⟨.array [v] :: stack, .separator⟩ (itemLexemes rest ++ _) = _
    rw [List.foldlM_append, read_itemLexemes]
    show some (Reader.deliver stack (.arr (rest.reverse ++ [v]).reverse)) = _
    rw [List.reverse_append, List.reverse_reverse]
    rfl
  | obj [] => rfl
  | obj ((k, v) :: rest) => by
    rw [lexemes, List.foldlM_cons]
    show List.foldlM Reader.step ⟨.object [] (some k) true :: stack, .value⟩ (lexemes v ++ _) = _
    rw [List.foldlM_append, read_lexemes]
    show List.foldlM Reader.step ⟨.object [(k, v)] none true :: stack, .separator⟩
      (memberLexemes rest ++ _) = _
    rw [List.foldlM_append, read_memberLexemes]
    show some (Reader.deliver stack (.obj (rest.reverse ++ [(k, v)]).reverse)) = _
    rw [List.reverse_append, List.reverse_reverse]
    rfl
  | foreign => rfl

theorem read_itemLexemes (stack : List Frame) : ∀ (items acc : List Json),
    (itemLexemes items).foldlM Reader.step ⟨.array acc :: stack, .separator⟩ =
      some ⟨.array (items.reverse ++ acc) :: stack, .separator⟩
  | [], acc => rfl
  | v :: rest, acc => by
    rw [itemLexemes, List.foldlM_cons, List.reverse_cons, List.append_assoc]
    show List.foldlM Reader.step ⟨.array acc :: stack, .value⟩ (lexemes v ++ itemLexemes rest) = _
    rw [List.foldlM_append, read_lexemes]
    exact read_itemLexemes stack rest (v :: acc)

theorem read_memberLexemes (stack : List Frame) : ∀ members acc : List (String × Json),
    (memberLexemes members).foldlM Reader.step ⟨.object acc none true :: stack, .separator⟩ =
      some ⟨.object (members.reverse ++ acc) none true :: stack, .separator⟩
  | [], acc => rfl
  | (k, v) :: rest, acc => by
    rw [memberLexemes, List.foldlM_cons, List.reverse_cons, List.append_assoc]
    show List.foldlM Reader.step ⟨.object acc (some k) true :: stack, .value⟩
      (lexemes v ++ memberLexemes rest) = _
    rw [List.foldlM_append, read_lexemes]
    exact read_memberLexemes stack rest ((k, v) :: acc)

end

/-- The document of a value reads as the value. -/
theorem parse_pretty (v : Json) : parse v.pretty = some v := by
  unfold parse pretty ofLexemes
  rw [(spells_prettyAt 0 v).scan_eq, Option.bind_some, Reader.start, read_lexemes]
  rfl

end StructLang.Json
