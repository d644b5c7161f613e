import TypeTable.Spelling

/-!
# Kinds of types

The six kinds, the words for their variants, and the fields that the body of a definition of each
kind may hold.
-/

namespace TypeTable

/-- The kind of a type. -/
inductive Kind where
  | int
  | number
  | bool
  | string
  | array
  | object
  deriving DecidableEq, Repr, Inhabited

instance : Spelled Kind where
  members := [.int, .number, .bool, .string, .array, .object]
  word
    | .int => "int"
    | .number => "number"
    | .bool => "bool"
    | .string => "string"
    | .array => "array"
    | .object => "object"
  mem_members member := by cases member <;> decide
  word_injective {a b} := by cases a <;> cases b <;> decide

/-- How an integer is stored. -/
inductive IntFormat where
  | uint32
  | uint64
  | int32
  | int64
  deriving DecidableEq, Repr

/-- An integer is stored in 32 bits with a sign unless its definition says otherwise. -/
instance : Inhabited IntFormat := ⟨.int32⟩

instance : Spelled IntFormat where
  members := [.uint32, .uint64, .int32, .int64]
  word
    | .uint32 => "uint32"
    | .uint64 => "uint64"
    | .int32 => "int32"
    | .int64 => "int64"
  mem_members member := by cases member <;> decide
  word_injective {a b} := by cases a <;> cases b <;> decide

/-- How a floating point number is stored. -/
inductive NumberFormat where
  | float
  | double
  deriving DecidableEq, Repr

/-- A number is stored in single precision unless its definition says otherwise. -/
instance : Inhabited NumberFormat := ⟨.float⟩

instance : Spelled NumberFormat where
  members := [.float, .double]
  word
    | .float => "float"
    | .double => "double"
  mem_members member := by cases member <;> decide
  word_injective {a b} := by cases a <;> cases b <;> decide

/-- Whether the elements of an array are ordered and may repeat, or form a set. -/
inductive Container where
  | array
  | set
  deriving DecidableEq, Repr

/-- The elements of an array are ordered unless its definition says otherwise. -/
instance : Inhabited Container := ⟨.array⟩

instance : Spelled Container where
  members := [.array, .set]
  word
    | .array => "array"
    | .set => "set"
  mem_members member := by cases member <;> decide
  word_injective {a b} := by cases a <;> cases b <;> decide

namespace Kind

/-- The fields of a body of every kind. -/
def sharedFields : List String := ["type", "description"]

/-- The fields of a body that only some kinds have. -/
def ownFields : Kind → List String
  | .int | .number => ["format"]
  | .bool => []
  | .string => ["enum"]
  | .array => ["array_type", "items"]
  | .object => ["properties", "required"]

/-- Whether a body of the kind may hold a field. -/
def allows (kind : Kind) (field : String) : Bool :=
  sharedFields.contains field || kind.ownFields.contains field

end Kind

end TypeTable
