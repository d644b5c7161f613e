import TypeTable.Yaml.Token.Basic

/-!
# Nodes

The tree that a text states, before scalars are given values and aliases are followed.
-/

namespace TypeTable.Yaml

/-- What can stand in front of a node. An anchor is given by its number, a tag by its octets. -/
structure Properties where
  anchor : Option Nat := none
  tag : Option Octets := none

/-- A node of a document. -/
inductive Node where
  | alias (anchor : Nat)
  | scalar (properties : Properties) (plain : Bool) (text : String)
  | seq (properties : Properties) (items : List Node)
  | map (properties : Properties) (entries : List (Node × Node))

namespace Node

/-- The node that stands where nothing is written. -/
def blank : Node :=
  .scalar {} true ""

instance : Inhabited Node := ⟨blank⟩

/-- What stands in front of a node. -/
def properties : Node → Properties
  | .alias _ => {}
  | .scalar properties .. | .seq properties _ | .map properties _ => properties

mutual

/-- The number of marks that a node is made of: one for a scalar or an alias, and two for a
collection besides those of its members. -/
def weight : Node → Nat
  | .alias _ | .scalar .. => 1
  | .seq _ items => weightItems items + 2
  | .map _ entries => weightEntries entries + 2
termination_by structural node => node

/-- The weight of the items of a sequence. -/
def weightItems : List Node → Nat
  | [] => 0
  | node :: rest => node.weight + weightItems rest
termination_by structural items => items

/-- The weight of the keys and values of a mapping. -/
def weightEntries : List (Node × Node) → Nat
  | [] => 0
  | (key, value) :: rest => key.weight + value.weight + weightEntries rest
termination_by structural entries => entries

end

/-- A node with its anchor, if it has one, added in front of other anchored nodes. -/
def addAnchored (node : Node) (others : List (Nat × Node)) : List (Nat × Node) :=
  match node.properties.anchor with
  | some anchor => (anchor, node) :: others
  | none => others

mutual

/-- The anchored nodes in a node, the last written first, in front of those found before. -/
def anchored (before : List (Nat × Node)) (node : Node) : List (Nat × Node) :=
  match node with
  | .alias _ => before
  | .scalar .. => node.addAnchored before
  | .seq _ items => anchoredItems (node.addAnchored before) items
  | .map _ entries => anchoredEntries (node.addAnchored before) entries
termination_by structural node

/-- The anchored nodes in the items of a sequence. -/
def anchoredItems (before : List (Nat × Node)) (items : List Node) : List (Nat × Node) :=
  match items with
  | [] => before
  | node :: rest => anchoredItems (node.anchored before) rest
termination_by structural items

/-- The anchored nodes in the keys and values of a mapping. -/
def anchoredEntries (before : List (Nat × Node)) (entries : List (Node × Node)) :
    List (Nat × Node) :=
  match entries with
  | [] => before
  | (key, value) :: rest => anchoredEntries (value.anchored (key.anchored before)) rest
termination_by structural entries

end

end Node

end TypeTable.Yaml
