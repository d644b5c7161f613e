import Mathlib.Data.List.Forall2
import TypeTable.Proofs.Json.Compact

/-!
# Spread texts without their blanks

The spread form of a value differs from the compact one only in blanks outside texts. What is
outside is known by reading from the left (`Place.next`), and `withoutBlanks` is what remains when
the blanks there are dropped: `Json.withoutBlanks_spread`. `Reduces` says of a piece of JSON what
remains of it and where the reader is behind it, so that pieces are put together by
`Reduces.append`.
-/

namespace TypeTable.Json

/-- Where a character of a JSON text stands. -/
inductive Place where
  /-- Between texts in quotes. -/
  | outside
  /-- In quotes. -/
  | inside
  /-- In quotes, behind a backslash that is not itself escaped. -/
  | escaped
  deriving DecidableEq, Repr

namespace Place

/-- Where the next character stands. -/
def next : Place → Char → Place
  | .outside, c => if c = '"' then .inside else .outside
  | .inside, c => if c = '"' then .outside else if c = '\\' then .escaped else .inside
  | .escaped, _ => .inside

/-- Whether a character is dropped: a space or a line feed that is not in quotes. -/
def drops : Place → Char → Bool
  | .outside, c => c == ' ' || c == '\n'
  | .inside, _ | .escaped, _ => false

/-- What remains of characters from a place on. -/
def remains : Place → List Char → List Char
  | _, [] => []
  | place, c :: rest =>
    if place.drops c then (place.next c).remains rest else c :: (place.next c).remains rest

end Place

/-- A JSON text without the spaces and line feeds that are not in quotes. -/
def withoutBlanks (text : String) : String :=
  String.ofList (Place.outside.remains text.toList)

/-! ## Pieces of JSON -/

/-- Read from a place, a piece leads to another place, and the other piece remains of it. -/
structure Reduces (start stop : Place) (piece reduced : List Char) : Prop where
  place : piece.foldl Place.next start = stop
  remains : start.remains piece = reduced

namespace Reduces

variable {start middle stop : Place} {piece other reduced reduced' : List Char}

theorem nil : Reduces start start [] [] :=
  ⟨rfl, rfl⟩

theorem append (h : Reduces start middle piece reduced)
    (hother : Reduces middle stop other reduced') :
    Reduces start stop (piece ++ other) (reduced ++ reduced') := by
  obtain ⟨rfl, rfl⟩ := h
  obtain ⟨rfl, rfl⟩ := hother
  refine ⟨List.foldl_append, ?_⟩
  induction piece generalizing start with
  | nil => rfl
  | cons c rest ih =>
    rw [List.cons_append, Place.remains, Place.remains, List.foldl_cons, ih]
    split <;> rfl

/-- A character that is kept. -/
theorem kept {c : Char} (h : start.drops c = false) : Reduces start (start.next c) [c] [c] := by
  refine ⟨rfl, ?_⟩
  rw [Place.remains, h]
  rfl

/-! ## Texts in quotes -/

theorem hexDigit_ne : ∀ n < 16, hexDigit n ≠ '"' ∧ hexDigit n ≠ '\\' := by decide

theorem plain {c : Char} (hquote : c ≠ '"') (hbackslash : c ≠ '\\') :
    Reduces .inside .inside [c] [c] := by
  have h : Reduces .inside (Place.inside.next c) [c] [c] := kept rfl
  rwa [Place.next, if_neg hquote, if_neg hbackslash] at h

/-- An escaped character is left whole and ends no text. -/
theorem escapeChar (c : Char) : Reduces .inside .inside (escapeChar c) (escapeChar c) := by
  unfold Json.escapeChar
  -- The seven characters that have an escape of their own.
  iterate 7
    split
    · exact ⟨rfl, rfl⟩
  split
  · next h =>
    have hlt : c.toNat < 32 := h
    obtain ⟨hquote, hbackslash⟩ := hexDigit_ne (c.toNat / 16) (by omega)
    obtain ⟨hquote', hbackslash'⟩ := hexDigit_ne (c.toNat % 16) (by omega)
    have hmark : Reduces .inside .inside ['\\', 'u', '0', '0'] ['\\', 'u', '0', '0'] := ⟨rfl, rfl⟩
    exact hmark.append ((plain hquote hbackslash).append (plain hquote' hbackslash'))
  · next hquote hbackslash _ _ _ _ _ _ => exact plain hquote hbackslash

theorem quote (text : String) : Reduces .outside .outside (quote text) (quote text) := by
  have hchars : ∀ chars : List Char,
      Reduces .inside .inside (chars.flatMap Json.escapeChar) (chars.flatMap Json.escapeChar) := by
    intro chars
    induction chars with
    | nil => exact nil
    | cons c rest ih =>
      rw [List.flatMap_cons]
      exact (escapeChar c).append ih
  have hopening : Reduces .outside .inside ['"'] ['"'] := ⟨rfl, rfl⟩
  have hclosing : Reduces .inside .outside ['"'] ['"'] := ⟨rfl, rfl⟩
  exact hopening.append ((hchars text.toList).append hclosing)

/-! ## Lines and brackets -/

/-- Nothing remains of a line break and the blanks behind it. -/
theorem lineAt (depth : Nat) : Reduces .outside .outside (lineAt depth) [] := by
  have hblank : Reduces .outside .outside [' '] [] := ⟨rfl, rfl⟩
  have hbreak : Reduces .outside .outside ['\n'] [] := ⟨rfl, rfl⟩
  have hblanks : ∀ n, Reduces .outside .outside (List.replicate n ' ') [] := by
    intro n
    induction n with
    | zero => exact nil
    | succ n ih => exact hblank.append ih
  exact hbreak.append (hblanks (2 * depth))

theorem separated {separator : List Char} (hseparator : Reduces .outside .outside separator [','])
    {pieces reduced : List (List Char)}
    (h : List.Forall₂ (Reduces .outside .outside) pieces reduced) :
    Reduces .outside .outside (separated separator pieces) (separated [','] reduced) := by
  cases h with
  | nil => exact nil
  | cons hfirst hrest =>
    rw [separated_cons, separated_cons]
    refine hfirst.append ?_
    induction hrest with
    | nil => exact nil
    | cons hnext _ ih =>
      rw [List.flatMap_cons, List.flatMap_cons]
      exact (hseparator.append hnext).append ih

/-- Of pieces on lines of their own remain the pieces with commas between them. -/
theorem bracketed {opening closing : Char} {depth : Nat} {pieces reduced : List (List Char)}
    (hopening : Reduces .outside .outside [opening] [opening])
    (hclosing : Reduces .outside .outside [closing] [closing])
    (h : List.Forall₂ (Reduces .outside .outside) pieces reduced) :
    Reduces .outside .outside (bracketed opening closing depth pieces)
      (opening :: Json.separated [','] reduced ++ [closing]) := by
  have hcomma : Reduces .outside .outside [','] [','] := ⟨rfl, rfl⟩
  have hseparated := separated (hcomma.append (lineAt (depth + 1))) h
  cases h with
  | nil => exact hopening.append hclosing
  | cons hfirst hrest =>
    have hinner := ((lineAt (depth + 1)).append hseparated).append (lineAt depth)
    have hall := hopening.append (hinner.append hclosing)
    simpa [Json.bracketed] using hall

end Reduces

/-! ## Values -/

theorem spreadItems_eq (depth : Nat) (items : List Json) :
    spreadItems depth items = items.map (spreadChars (depth + 1)) := by
  induction items with
  | nil => rfl
  | cons item rest ih => rw [spreadItems, ih, List.map_cons]

/-- A member of an object whose value stands at a depth. -/
def spreadMember (depth : Nat) (member : String × Json) : List Char :=
  quote member.1 ++ ':' :: ' ' :: member.2.spreadChars depth

theorem spreadMembers_eq (depth : Nat) (members : List (String × Json)) :
    spreadMembers depth members = members.map (spreadMember (depth + 1)) := by
  induction members with
  | nil => rfl
  | cons member rest ih =>
    rw [spreadMembers, ih, List.map_cons]
    rfl

/-- Of a value spread over lines, at any depth, remains its compact text. -/
theorem reduces_spreadChars (value : Json) :
    ∀ depth, Reduces .outside .outside (value.spreadChars depth) value.compactChars := by
  induction value using Json.induction with
  | text value => exact fun _ => .quote value
  | list items ih =>
    intro depth
    rw [spreadChars, compactChars, spreadItems_eq, compactItems_eq]
    refine .bracketed ⟨rfl, rfl⟩ ⟨rfl, rfl⟩ ?_
    rw [List.forall₂_map_left_iff, List.forall₂_map_right_iff, List.forall₂_same]
    exact fun item hitem => ih item hitem (depth + 1)
  | object members ih =>
    intro depth
    rw [spreadChars, compactChars, spreadMembers_eq, compactMembers_eq]
    refine .bracketed ⟨rfl, rfl⟩ ⟨rfl, rfl⟩ ?_
    rw [List.forall₂_map_left_iff, List.forall₂_map_right_iff, List.forall₂_same]
    intro member hmember
    have hcolon : Reduces .outside .outside [':', ' '] [':'] := ⟨rfl, rfl⟩
    exact (Reduces.quote member.1).append (hcolon.append (ih member hmember (depth + 1)))

/-- The spread text of a value is its compact text and blanks outside texts. -/
theorem withoutBlanks_spread (value : Json) : withoutBlanks value.spread = value.compact := by
  rw [withoutBlanks, spread, String.toList_ofList, (reduces_spreadChars value 0).remains, compact]

-- The escaped quote ends no text, so the blank behind it stays.
example : withoutBlanks "[ \"a \\\" b\",\n  [] ]" = "[\"a \\\" b\",[]]" := by rfl

end TypeTable.Json
