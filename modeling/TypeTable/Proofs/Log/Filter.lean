import Mathlib.Data.List.Induction
import TypeTable.Log.Filter

/-!
# What a filter admits

Of the directives of a filter, the one that decides about an event is the last one of those with the
longest target that starts the name of the event's part (`Filter.Decides`). `Filter.admits_iff` says
that the event is admitted up to the level of this directive, so its level and its part are all that
counts.
-/

namespace TypeTable.Log

variable {event : Event}

theorem Directive.covers_iff {directive : Directive} :
    directive.covers event = true ↔ directive.target.toList <+: event.target.toList :=
  List.isPrefixOf_iff_prefix

theorem Directive.admits_iff {directive : Directive} :
    directive.admits event = true ↔
      ∃ level, directive.level = some level ∧ event.level.rank ≤ level.rank := by
  unfold Directive.admits
  cases directive.level <;> simp

namespace Filter

/-- The directives before it are no closer to the part of the event, and those behind it less close. -/
structure Decides (filter : Filter) (event : Event) (directive : Directive) : Prop where
  covers : directive.target.toList <+: event.target.toList
  among : ∃ before after, filter.directives = before ++ directive :: after ∧
    (∀ other ∈ before, other.target.toList <+: event.target.toList →
      other.target.length ≤ directive.target.length) ∧
    ∀ other ∈ after, other.target.toList <+: event.target.toList →
      other.target.length < directive.target.length

/-- A directive takes over from those before it, or does not. -/
theorem decisive?_append (directives : List Directive) (last : Directive) :
    decisive? ⟨directives ++ [last]⟩ event =
      if last.covers event &&
          (decisive? ⟨directives⟩ event).all (·.target.length ≤ last.target.length) then
        some last
      else decisive? ⟨directives⟩ event := by
  rw [decisive?, List.foldl_append]
  rfl

/-- What decides about an event has the longest target of all that is about its part. -/
theorem all_decisive?_iff {directives : List Directive} {bound : Nat} :
    (decisive? ⟨directives⟩ event).all (·.target.length ≤ bound) = true ↔
      ∀ other ∈ directives, other.covers event = true → other.target.length ≤ bound := by
  induction directives using List.reverseRecOn generalizing bound with
  | nil => simp [decisive?]
  | append_singleton directives last ih =>
    rw [decisive?_append, List.forall_mem_append, List.forall_mem_singleton]
    split
    · next htakes =>
      rw [Bool.and_eq_true, ih] at htakes
      rw [Option.all_some, decide_eq_true_eq]
      constructor
      · intro hbound
        refine ⟨fun other hother hcovers => ?_, fun _ => hbound⟩
        exact Nat.le_trans (htakes.2 other hother hcovers) hbound
      · intro h
        exact h.2 htakes.1
    · next hkeeps =>
      rw [ih]
      refine ⟨fun hbound => ⟨hbound, fun hcovers => ?_⟩, fun h => h.1⟩
      -- One before it is closer, or else it would have taken over.
      rw [Bool.and_eq_true, ih, not_and] at hkeeps
      by_contra hexceeds
      refine hkeeps hcovers fun other hother hcovers => ?_
      have := hbound other hother hcovers
      omega

theorem decides_of_decisive? {directives : List Directive} {directive : Directive}
    (h : decisive? ⟨directives⟩ event = some directive) :
    Decides ⟨directives⟩ event directive := by
  induction directives using List.reverseRecOn with
  | nil => cases h
  | append_singleton directives last ih =>
    rw [decisive?_append] at h
    split at h
    · next htakes =>
      cases h
      rw [Bool.and_eq_true, all_decisive?_iff] at htakes
      refine ⟨Directive.covers_iff.mp htakes.1, directives, [], rfl, ?_, List.forall_mem_nil _⟩
      exact fun other hother hcovers => htakes.2 other hother (Directive.covers_iff.mpr hcovers)
    · next hkeeps =>
      obtain ⟨hcovers, before, after, heq, hbefore, hafter⟩ := ih h
      have heq : directives = before ++ directive :: after := heq
      refine ⟨hcovers, before, after ++ [last], by simp [heq], hbefore, ?_⟩
      rw [List.forall_mem_append, List.forall_mem_singleton]
      refine ⟨hafter, fun hlast => ?_⟩
      rw [h, Directive.covers_iff.mpr hlast] at hkeeps
      simpa using hkeeps

theorem decisive?_of_decides {filter : Filter} {directive : Directive}
    (h : filter.Decides event directive) : filter.decisive? event = some directive := by
  obtain ⟨hcovers, before, after, heq, hbefore, hafter⟩ := h
  obtain ⟨directives⟩ := filter
  have heq : directives = before ++ directive :: after := heq
  subst heq
  induction after using List.reverseRecOn with
  | nil =>
    rw [decisive?_append, if_pos]
    rw [Bool.and_eq_true, Directive.covers_iff, all_decisive?_iff]
    exact ⟨hcovers, fun other hother hother' =>
      hbefore other hother (Directive.covers_iff.mp hother')⟩
  | append_singleton after last ih =>
    rw [List.forall_mem_append, List.forall_mem_singleton] at hafter
    have hfirst := ih hafter.1 rfl
    rw [← List.cons_append, ← List.append_assoc, decisive?_append, hfirst, if_neg]
    rw [Bool.and_eq_true, Directive.covers_iff, Option.all_some, decide_eq_true_eq]
    exact fun hlast => Nat.not_le_of_lt (hafter.2 hlast.1) hlast.2

/-- A filter admits an event up to the level of the directive that decides about it. -/
theorem admits_iff {filter : Filter} :
    filter.admits event = true ↔ ∃ directive level, filter.Decides event directive ∧
      directive.level = some level ∧ event.level.rank ≤ level.rank := by
  rw [admits, Option.any_eq_true]
  constructor
  · intro ⟨directive, hdecisive, hadmits⟩
    obtain ⟨level, hlevel, hrank⟩ := Directive.admits_iff.mp hadmits
    exact ⟨directive, level, decides_of_decisive? hdecisive, hlevel, hrank⟩
  · intro ⟨directive, level, hdecides, hlevel, hrank⟩
    exact ⟨directive, decisive?_of_decides hdecides,
      Directive.admits_iff.mpr ⟨level, hlevel, hrank⟩⟩

end Filter

end TypeTable.Log
