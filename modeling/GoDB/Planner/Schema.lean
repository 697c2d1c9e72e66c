import GoDB.Planner.Expr

/-! Logical columns, and the binder that turns them into offsets. -/

namespace GoDB.Planner
open Common

/-- Every table of a query has an id of its own; id 0 is a reference that no
operator owns yet. -/
structure TableRef where
  tableAlias : String
  refID : Nat
deriving DecidableEq

namespace TableRef

/-- A pointer to a reference or nil. Pointers that are equal have equal ids. -/
def equals : Option TableRef → Option TableRef → Bool
  | none, none => true
  | some t, some other =>
    t.refID = other.refID ∨ (t.refID = 0 ∨ other.refID = 0) ∧ t.tableAlias = other.tableAlias
  | none, some _ | some _, none => false

theorem equals_self (t : Option TableRef) : equals t t = true := by cases t <;> simp [equals]

end TableRef

/-- What the planner has from `strings` and `sqlparser` to compare names and to
write them. Of the two ways to compare them only that they sort the names into
classes is used; the classes differ, `ſ` being an `s` for `EqualFold` alone. -/
class Identifiers where
  equalFold : String → String → Bool
  equalFold_equivalence : Equivalence fun s t => equalFold s t = true
  toLower : String → String
  toUpper : String → String
  equalString : String → String → Bool
  equalString_equivalence : Equivalence fun s t => equalString s t = true
  compliantName : String → String
  isAggregate : String → Bool

export Identifiers (equalFold equalFold_equivalence toLower toUpper equalString equalString_equivalence compliantName
  isAggregate)

structure LogicalColumn where
  cname : String
  ctype : FieldType
  origin : Option TableRef
deriving DecidableEq

namespace LogicalColumn
variable [Identifiers]

def equals (c other : LogicalColumn) : Bool :=
  equalFold c.cname other.cname && c.ctype = other.ctype && TableRef.equals c.origin other.origin

theorem equals_self (c : LogicalColumn) : c.equals c = true := by
  simp [equals, equalFold_equivalence.refl, TableRef.equals_self]

end LogicalColumn

abbrev LogicalSchema := List LogicalColumn

abbrev LogicalExpr := Expr LogicalColumn

instance (priority := 2000) : LawfulBEq LogicalExpr := inferInstance

namespace LogicalSchema
variable [Identifiers] (s : LogicalSchema)

def contains (target : LogicalColumn) : Bool := s.any (·.equals target)

def coversExpr (expr : LogicalExpr) : Bool := expr.getReferencedColumns.all s.contains

def position (target : LogicalColumn) : Option Nat := s.findIdx? (·.equals target)

end LogicalSchema

structure BoundValueExpr where
  fieldOffset : Nat
  outputType : FieldType
  name : String
deriving DecidableEq

abbrev PhysicalExpr := Expr BoundValueExpr

namespace PhysicalExpr

def eval (e : PhysicalExpr) (t : Row) : Option Value := e.evalWith fun col => t[col.fieldOffset]?

def test (e : PhysicalExpr) (t : Row) : Option Bool := e.testWith fun col => t[col.fieldOffset]?

end PhysicalExpr

section
variable [Identifiers]

/-- Panics when the schema lacks the column or the row type is too short. -/
def bindColumn (logicalSchema : LogicalSchema) (physicalSchema : List FieldType) (v : LogicalColumn) :
    Option BoundValueExpr := do
  let i ← logicalSchema.position v
  let outputType ← physicalSchema[i]?
  return ⟨i, outputType, v.cname⟩

def bindExpr (e : LogicalExpr) (logicalSchema : LogicalSchema) (physicalSchema : List FieldType) :
    Option PhysicalExpr :=
  e.traverse (bindColumn logicalSchema physicalSchema)

def bindExprs (es : List LogicalExpr) (logicalSchema : LogicalSchema) (physicalSchema : List FieldType) :
    Option (List PhysicalExpr) :=
  es.mapM (bindExpr · logicalSchema physicalSchema)

end

/-- The source rebuilds the tree; a shift cannot fail. -/
def shiftExpr (shiftOffset : Nat) : PhysicalExpr → PhysicalExpr
  | .column col => .column { col with fieldOffset := col.fieldOffset + shiftOffset }
  | .constant val => .constant val
  | .comparison address left right compType =>
    .comparison address (shiftExpr shiftOffset left) (shiftExpr shiftOffset right) compType
  | .logic address left right logicType =>
    .logic address (shiftExpr shiftOffset left) (shiftExpr shiftOffset right) logicType
  | .negation address child => .negation address (shiftExpr shiftOffset child)
  | .nullCheck address child checkType => .nullCheck address (shiftExpr shiftOffset child) checkType
  | .arithmetic left right op => .arithmetic (shiftExpr shiftOffset left) (shiftExpr shiftOffset right) op
  | .concat left right => .concat (shiftExpr shiftOffset left) (shiftExpr shiftOffset right)
  | .like address left right => .like address (shiftExpr shiftOffset left) (shiftExpr shiftOffset right)

end GoDB.Planner
