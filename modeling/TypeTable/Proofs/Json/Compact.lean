import TypeTable.Json.Basic

/-!
# Compact texts are told apart

A compact text shows where it ends, so no two values have the same text (`Json.compact_inj`), nor do
they with anything behind it (`Json.compactChars_append_inj`). A character is told from its escape
by `readEscaped`. Lists and objects are told apart by `separated_append_inj`: their pieces are, and
none of these starts like the bracket behind them.
-/

namespace TypeTable.Json

/-! ## Characters -/

/-- The number that a digit of base sixteen stands for. -/
def hexValue (c : Char) : Nat :=
  if c.toNat < 'a'.toNat then c.toNat - '0'.toNat else c.toNat - 'a'.toNat + 10

theorem hexValue_hexDigit : ∀ n < 16, hexValue (hexDigit n) = n := by decide

/-- The character that stands, escaped or not, in front of the rest of a text. -/
def readEscaped : List Char → Option (Char × List Char)
  | '\\' :: 'u' :: _ :: _ :: high :: low :: rest =>
    some (Char.ofNat (16 * hexValue high + hexValue low), rest)
  | '\\' :: 'b' :: rest => some ('\x08', rest)
  | '\\' :: 'f' :: rest => some ('\x0c', rest)
  | '\\' :: 'n' :: rest => some ('\n', rest)
  | '\\' :: 'r' :: rest => some ('\r', rest)
  | '\\' :: 't' :: rest => some ('\t', rest)
  | '\\' :: c :: rest => some (c, rest)
  | c :: rest => some (c, rest)
  | [] => none

theorem readEscaped_control {c : Char} (h : c < ' ') (rest : List Char) :
    readEscaped (['\\', 'u', '0', '0', hexDigit (c.toNat / 16), hexDigit (c.toNat % 16)] ++ rest) =
      some (c, rest) := by
  have hlt : c.toNat < 32 := h
  have hhigh : hexValue (hexDigit (c.toNat / 16)) = c.toNat / 16 :=
    hexValue_hexDigit _ (by omega)
  have hlow : hexValue (hexDigit (c.toNat % 16)) = c.toNat % 16 :=
    hexValue_hexDigit _ (by omega)
  have hsum : 16 * (c.toNat / 16) + c.toNat % 16 = c.toNat := by omega
  simp only [List.cons_append, List.nil_append, readEscaped, hhigh, hlow, hsum, Char.ofNat_toNat]

theorem readEscaped_plain {c : Char} (h : c ≠ '\\') (rest : List Char) :
    readEscaped (c :: rest) = some (c, rest) := by
  unfold readEscaped
  split <;> simp_all

/-- A character is read back from its escape, whatever is behind it. -/
theorem readEscaped_escapeChar (c : Char) (rest : List Char) :
    readEscaped (escapeChar c ++ rest) = some (c, rest) := by
  unfold escapeChar
  -- The seven characters that have an escape of their own.
  iterate 7
    split
    · next h => rw [h]; rfl
  split
  · next h => exact readEscaped_control h rest
  · next hbackslash _ _ _ _ _ _ => exact readEscaped_plain hbackslash rest

theorem escapeChar_append_inj {c d : Char} {rest others : List Char}
    (h : escapeChar c ++ rest = escapeChar d ++ others) : c = d ∧ rest = others := by
  have hread := readEscaped_escapeChar c rest
  rw [h, readEscaped_escapeChar] at hread
  simpa [eq_comm] using hread

/-- What starts with an escaped character does not start with a quote. -/
theorem escapeChar_append_ne_quote (c : Char) (rest others : List Char) :
    escapeChar c ++ rest ≠ '"' :: others := by
  intro h
  have hread := readEscaped_escapeChar c rest
  rw [h, readEscaped_plain (by decide), Option.some.injEq, Prod.mk.injEq] at hread
  obtain ⟨rfl, rfl⟩ := hread
  simp [escapeChar] at h

/-! ## Pieces in a row -/

section Pieces

variable {α : Type} {code : α → List Char} {mark : Char} {as bs : List α} {rest others : List Char}

/-- Pieces in a row are told apart, up to a mark that none of them starts with. -/
theorem flatMap_append_inj
    (hcode : ∀ a ∈ as, ∀ b rest others, code a ++ rest = code b ++ others → a = b ∧ rest = others)
    (hmark : ∀ a rest others, code a ++ rest ≠ mark :: others)
    (h : as.flatMap code ++ mark :: rest = bs.flatMap code ++ mark :: others) :
    as = bs ∧ rest = others := by
  induction as generalizing bs with
  | nil =>
    cases bs with
    | nil => exact ⟨rfl, (List.cons.inj h).2⟩
    | cons b bs =>
      rw [List.flatMap_cons, List.append_assoc] at h
      exact absurd h.symm (hmark b _ _)
  | cons a as ih =>
    cases bs with
    | nil =>
      rw [List.flatMap_cons, List.append_assoc] at h
      exact absurd h (hmark a _ _)
    | cons b bs =>
      rw [List.flatMap_cons, List.flatMap_cons, List.append_assoc, List.append_assoc] at h
      obtain ⟨rfl, hpieces⟩ := hcode a (List.mem_cons_self ..) b _ _ h
      obtain ⟨rfl, hrest⟩ := ih (fun a ha => hcode a (List.mem_cons_of_mem _ ha)) hpieces
      exact ⟨rfl, hrest⟩

theorem separated_cons (separator piece : List Char) (pieces : List (List Char)) :
    separated separator (piece :: pieces) = piece ++ pieces.flatMap (separator ++ ·) := by
  induction pieces generalizing piece with
  | nil => simp [separated]
  | cons next pieces ih =>
    rw [separated, ih, List.flatMap_cons, List.append_assoc, List.append_assoc]

/-- Pieces with commas between them are told apart, up to a mark that none of them starts with. -/
theorem separated_append_inj
    (hcode : ∀ a ∈ as, ∀ b rest others, code a ++ rest = code b ++ others → a = b ∧ rest = others)
    (hmark : ∀ a rest others, code a ++ rest ≠ mark :: others) (hcomma : mark ≠ ',')
    (h : separated [','] (as.map code) ++ mark :: rest =
      separated [','] (bs.map code) ++ mark :: others) :
    as = bs ∧ rest = others := by
  cases as with
  | nil =>
    cases bs with
    | nil => exact ⟨rfl, (List.cons.inj h).2⟩
    | cons b bs =>
      rw [List.map_cons, separated_cons, List.append_assoc] at h
      exact absurd h.symm (hmark b _ _)
  | cons a as =>
    cases bs with
    | nil =>
      rw [List.map_cons, separated_cons, List.append_assoc] at h
      exact absurd h (hmark a _ _)
    | cons b bs =>
      simp only [List.map_cons, separated_cons, List.append_assoc, List.flatMap_map] at h
      obtain ⟨rfl, hpieces⟩ := hcode a (List.mem_cons_self ..) b _ _ h
      have hbehindComma : ∀ a ∈ as, ∀ b rest others,
          [','] ++ code a ++ rest = [','] ++ code b ++ others → a = b ∧ rest = others := by
        intro a ha b rest others h
        exact hcode a (List.mem_cons_of_mem _ ha) b rest others (List.cons.inj h).2
      obtain ⟨rfl, hrest⟩ := flatMap_append_inj hbehindComma
        (fun _ _ _ h => hcomma (List.cons.inj h).1.symm) hpieces
      exact ⟨rfl, hrest⟩

end Pieces

/-! ## Values -/

theorem quote_append_inj {text other : String} {rest others : List Char}
    (h : quote text ++ rest = quote other ++ others) : text = other ∧ rest = others := by
  simp only [quote, List.cons_append, List.append_assoc, List.nil_append, List.cons.injEq,
    true_and] at h
  obtain ⟨htext, hrest⟩ := flatMap_append_inj
    (fun _ _ _ _ _ => escapeChar_append_inj) escapeChar_append_ne_quote h
  exact ⟨String.toList_inj.mp htext, hrest⟩

theorem compactItems_eq (items : List Json) : compactItems items = items.map compactChars := by
  induction items with
  | nil => rfl
  | cons item rest ih => rw [compactItems, ih, List.map_cons]

/-- A member of an object without blanks. -/
def compactMember (member : String × Json) : List Char :=
  quote member.1 ++ ':' :: member.2.compactChars

theorem compactMembers_eq (members : List (String × Json)) :
    compactMembers members = members.map compactMember := by
  induction members with
  | nil => rfl
  | cons member rest ih =>
    rw [compactMembers, ih, List.map_cons]
    rfl

/-- Induction over values. A list comes after its items, and an object after the values of its
members. -/
theorem induction {Holds : Json → Prop} (text : ∀ value, Holds (.text value))
    (list : ∀ items, (∀ item ∈ items, Holds item) → Holds (.list items))
    (object : ∀ members, (∀ member ∈ members, Holds member.2) → Holds (.object members))
    (value : Json) : Holds value := by
  induction hsize : sizeOf value using Nat.strongRecOn generalizing value with
  | ind size ih =>
    subst hsize
    cases value with
    | text value => exact text value
    | list items =>
      refine list items fun item hitem => ih _ ?_ item rfl
      have hlt := List.sizeOf_lt_of_mem hitem
      rw [Json.list.sizeOf_spec]
      omega
    | object members =>
      refine object members fun member hmember => ih _ ?_ member.2 rfl
      have hlt := List.sizeOf_lt_of_mem hmember
      have heq : sizeOf member = 1 + sizeOf member.1 + sizeOf member.2 := rfl
      rw [Json.object.sizeOf_spec]
      omega

/-- No value starts like the end of a list. -/
theorem compactChars_append_ne_bracket (value : Json) (rest others : List Char) :
    value.compactChars ++ rest ≠ ']' :: others := by
  cases value <;> simp [compactChars, quote]

/-- No member starts like the end of an object. -/
theorem compactMember_append_ne_brace (member : String × Json) (rest others : List Char) :
    compactMember member ++ rest ≠ '\x7d' :: others := by
  simp [compactMember, quote]

/-- A value and what is behind its text are known from both together. -/
theorem compactChars_append_inj (value : Json) : ∀ other rest others,
    value.compactChars ++ rest = other.compactChars ++ others → value = other ∧ rest = others := by
  induction value using Json.induction with
  | text value =>
    intro other rest others h
    cases other with
    | text other =>
      obtain ⟨rfl, hrest⟩ := quote_append_inj h
      exact ⟨rfl, hrest⟩
    | list items => simp [compactChars, quote] at h
    | object members => simp [compactChars, quote] at h
  | list items ih =>
    intro other rest others h
    cases other with
    | list items' =>
      simp only [compactChars, compactItems_eq, List.cons_append, List.append_assoc,
        List.nil_append, List.cons.injEq, true_and] at h
      obtain ⟨rfl, hrest⟩ :=
        separated_append_inj ih compactChars_append_ne_bracket (by decide) h
      exact ⟨rfl, hrest⟩
    | text other => simp [compactChars, quote] at h
    | object members => simp [compactChars] at h
  | object members ih =>
    intro other rest others h
    cases other with
    | object members' =>
      simp only [compactChars, compactMembers_eq, List.cons_append, List.append_assoc,
        List.nil_append, List.cons.injEq, true_and] at h
      have hmember : ∀ member ∈ members, ∀ other rest others,
          compactMember member ++ rest = compactMember other ++ others →
            member = other ∧ rest = others := by
        intro member hmem other rest others h
        simp only [compactMember, List.append_assoc, List.cons_append] at h
        obtain ⟨hname, hbehind⟩ := quote_append_inj h
        obtain ⟨hvalue, hrest⟩ := ih member hmem _ _ _ (List.cons.inj hbehind).2
        exact ⟨Prod.ext hname hvalue, hrest⟩
      obtain ⟨rfl, hrest⟩ :=
        separated_append_inj hmember compactMember_append_ne_brace (by decide) h
      exact ⟨rfl, hrest⟩
    | text other => simp [compactChars, quote] at h
    | list items => simp [compactChars] at h

/-- Values with the same compact text are the same. -/
theorem compact_inj {value other : Json} : value.compact = other.compact ↔ value = other := by
  constructor
  · intro h
    have hchars : value.compactChars ++ [] = other.compactChars ++ [] := by
      rw [compact, compact, String.ofList_inj] at h
      rw [h]
    exact (compactChars_append_inj value other [] [] hchars).1
  · rintro rfl
    rfl

end TypeTable.Json
