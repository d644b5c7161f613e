/-!
# Closed sets of words

A type whose members are spelled by fixed words. A word names the member it spells and nothing
else: `Spelled.ofWord?_eq_some_iff` is the whole rule, so case and blanks count.
-/

namespace TypeTable

/-- A type whose members are spelled by words, no two by the same. -/
class Spelled (α : Type) where
  members : List α
  word : α → String
  mem_members (member : α) : member ∈ members
  word_injective {a b : α} (h : word a = word b) : a = b

export Spelled (word)

/-- The member that a word spells. -/
def Spelled.ofWord? {α : Type} [Spelled α] (w : String) : Option α :=
  (Spelled.members : List α).find? (word · == w)

theorem Spelled.ofWord?_eq_some_iff {α : Type} [Spelled α] {w : String} {member : α} :
    ofWord? w = some member ↔ word member = w := by
  constructor
  · intro h
    have := List.find?_some h
    simpa using this
  · rintro rfl
    have hsome : (ofWord? (word member) : Option α).isSome := by
      rw [ofWord?, List.find?_isSome]
      exact ⟨member, mem_members member, by simp⟩
    obtain ⟨other, hother⟩ := Option.isSome_iff_exists.mp hsome
    have heq := List.find?_some hother
    simp only [beq_iff_eq] at heq
    rw [hother, word_injective heq]

end TypeTable
