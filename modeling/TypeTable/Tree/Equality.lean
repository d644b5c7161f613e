import TypeTable.Tree.Basic

/-!
# Equality of trees

Mappings are compared without regard to the order of their entries, all else with it. This is the
equality that makes two keys of a mapping one key.
-/

namespace TypeTable.Tree

mutual

/-- Whether two trees are equal. -/
def same : Tree → Tree → Bool
  | .null, .null => true
  | .bool a, .bool b => a == b
  | .int a, .int b => a == b
  | .float a, .float b => a.same b
  | .text a, .text b => a == b
  | .seq as, .seq bs => sameItems as bs
  | .map as, .map bs => as.length == bs.length && sameEntries as bs
  | .tagged s a, .tagged t b => s == t && a.same b
  | _, _ => false
termination_by structural a => a

/-- Whether two sequences have equal items. -/
def sameItems : List Tree → List Tree → Bool
  | [], [] => true
  | a :: as, b :: bs => a.same b && sameItems as bs
  | _, _ => false
termination_by structural as => as

/-- Whether each entry of one mapping has an equal key with an equal value in the other. -/
def sameEntries : List (Tree × Tree) → List (Tree × Tree) → Bool
  | [], _ => true
  | (key, value) :: rest, others =>
    (match others.find? fun entry => key.same entry.1 with
      | some entry => value.same entry.2
      | none => false) && sameEntries rest others
termination_by structural entries => entries

end

end TypeTable.Tree
