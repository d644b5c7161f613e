import TypeTable.Proofs.Definition.Dump
import TypeTable.Proofs.Json.Compact
import TypeTable.Table.Basic

/-!
# Tables are known by their compact text

Nothing of a table is lost in its compact JSON text: `Table.compact_toJson_inj`.
-/

namespace TypeTable.Table

theorem toJson_inj {table other : Table} : table.toJson = other.toJson ↔ table = other := by
  rw [toJson, toJson, Json.object.injEq, Table.ext_iff]
  refine List.map_inj_right fun d e h => ?_
  exact Definition.toJson_inj.mp (Prod.mk.inj h).2

/-- Two tables have the same compact text only when they are the same: in their definitions and the
order of these, and in all that the definitions hold at any depth. -/
theorem compact_toJson_inj (table other : Table) :
    table.toJson.compact = other.toJson.compact ↔ table = other := by
  rw [Json.compact_inj, toJson_inj]

end TypeTable.Table
