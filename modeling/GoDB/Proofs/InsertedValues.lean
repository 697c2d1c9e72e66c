import GoDB.Planner.OperatorRules
import GoDB.Proofs.BoundTypes
import GoDB.Proofs.LogicalPlans
import GoDB.Proofs.PlannedInserts

/-! The rows of an INSERT with VALUES. The first tuple gives the number and the types
of the columns, and each tuple is written over the values of the one before. -/

namespace GoDB.Execution
open Common Lib Planner Option

def ownValues (exprs : List PhysicalExpr) : Option Row := exprs.mapM (·.eval [])

variable {exprs : List PhysicalExpr}

theorem isSome_ownValues : (ownValues exprs).isSome = true ↔ ∀ e ∈ exprs, (e.eval []).isSome = true := by
  simp [isSome_iff_exists, ownValues, mapM_eq_some_iff]

theorem putValues_eq {current : List (Option Value)} {row : Row}
    (evaluated : ownValues exprs = some row) (width : row.length = current.length) :
    putValues current exprs = some (row.map some) := by
  rw [putValues, ← ownValues, evaluated, bind_eq_bind, bind_some, if_pos width.le, width, List.drop_length, List.append_nil]
  rfl

theorem valuesRows_own_iff (current : List (Option Value)) (values : List (List PhysicalExpr)) :
    (∃ rows, valuesRows current values = some rows ∧ List.Forall₂ (fun exprs row => ownValues exprs = some row) values rows) ↔
      ∀ exprs ∈ values, ∃ row, ownValues exprs = some row ∧ row.length = current.length := by
  constructor
  · rintro ⟨rows, made, own⟩ exprs inside
    obtain ⟨row, returned, evaluated⟩ := exists_left_of_forall₂ own.flip exprs inside
    exact ⟨row, evaluated, length_of_mem_valuesRows made row returned⟩
  · intro fits
    induction values generalizing current with
    | nil => exact ⟨[], rfl, .nil⟩
    | cons exprs rest ih =>
      obtain ⟨⟨row, evaluated, width⟩, others⟩ := List.forall_mem_cons.mp fits
      obtain ⟨rows, made, own⟩ := ih (row.map some) (by rwa [List.length_map, width])
      have copied : (row.map some).mapM id = some (row.map id) := mapM_map_eq_some fun _ _ => rfl
      refine ⟨row :: rows, ?_, .cons evaluated own⟩
      rw [valuesRows, putValues_eq evaluated width, bind_eq_bind, bind_some, copied, made, List.map_id]
      rfl

end GoDB.Execution

namespace GoDB.Planner.LogicalPlanBuilder
open Common Lib Catalog LogicalPlanNode Execution ValuesRule

section
variable [Identifiers] {c : SystemCatalog} {printer : SqlPrinter} {tableName : String} {listed : List String}
  {tuples : List (List SqlExpr)} {before after : State} {values : List (List LogicalExpr)}

def BindRows (printer : SqlPrinter) (tuples : List (List SqlExpr)) (values : List (List LogicalExpr)) : Prop :=
  List.Forall₂ (List.Forall₂ fun sql e => ∃ address, Binds printer ⟨[]⟩ address sql e) tuples values

theorem exists_bindExpr_constant {address : Nat} {sql : SqlExpr} {e : LogicalExpr}
    (bound : Binds printer ⟨[]⟩ address sql e) : ∃ p, Planner.bindExpr e [] [] = some p := by
  have covered : LogicalSchema.coversExpr [] e = true := by
    rw [LogicalSchema.coversExpr, List.all_eq_true]
    intro col used
    obtain ⟨source, inside, -⟩ := bound.columns col used
    cases inside
  exact Option.isSome_iff_exists.mp ((isSome_bindExpr_iff bound.isBuilt rfl).mpr covered)

theorem exists_valuesPlan (bound : BindRows printer tuples values) (schema : LogicalSchema) :
    ∃ phys, apply values schema = some (.values phys (schema.map (·.ctype))) ∧
      List.Forall₂ (fun exprs p => p.length = exprs.length) values phys := by
  have each : ∀ exprs ∈ values, ∃ p, bindExprs exprs [] [] = some p ∧ p.length = exprs.length := by
    intro exprs inside
    obtain ⟨tuple, -, boundRow⟩ := exists_left_of_forall₂ bound exprs inside
    have all : ∀ e ∈ exprs, ∃ p, Planner.bindExpr e [] [] = some p ∧ True := by
      intro e listed
      obtain ⟨sql, -, address, binds⟩ := exists_left_of_forall₂ boundRow e listed
      exact (exists_bindExpr_constant binds).imp fun _ found => ⟨found, trivial⟩
    obtain ⟨p, made, -⟩ := exists_mapM all
    exact ⟨p, made, length_mapM made⟩
  obtain ⟨phys, made, related⟩ := exists_mapM each
  exact ⟨phys, by rw [apply, made]; rfl, related⟩

theorem planRows_values {plan : LogicalPlanNode} (planned : planRows c printer (.values tuples) before = .ok (plan, after)) :
    ∃ first rest, BindRows printer tuples (first :: rest) ∧
      plan = newLogicalValuesNode (first :: rest) (first.mapIdx valuesColumn) := by
  obtain ⟨values, _, bound, last⟩ := bind_returns.mp planned
  have rows : BindRows printer tuples values := (mapM_returns bound).imp fun tuple exprs run => by
    obtain ⟨start, stop, run⟩ := run
    refine (mapM_returns run).imp fun sql e found => ?_
    obtain ⟨_, _, found⟩ := found
    obtain ⟨e', bound, same⟩ := Outcome.bind_eq_ok.mp found
    cases same
    exact ⟨_, bindExpr_eq_ok.mp bound⟩
  cases values with
  | nil => cases last
  | cons first rest =>
    cases last
    exact ⟨first, rest, rows, rfl⟩

def HoldsValues (source : LogicalPlanNode) (values : List (List LogicalExpr)) (schema : LogicalSchema) : Prop :=
  source = newLogicalValuesNode values schema ∨
    ∃ expressions columns, source = newLogicalProjectionNode (newLogicalValuesNode values schema) expressions columns

/-- The tuples are as long as the first, and have its types. -/
def Alike (printer : SqlPrinter) (tuples : List (List SqlExpr)) : Prop :=
  ∀ first ∈ tuples.head?, ∀ tuple ∈ tuples,
    List.Forall₂ (fun sql other => ∃ t, HasType printer ⟨[]⟩ sql t ∧ HasType printer ⟨[]⟩ other t) first tuple

def ReturnsOwn (db : Database) (phys : List (List PhysicalExpr)) (types : List FieldType) : Prop :=
  ∃ rows, Execution.planRows db (.values phys types) = some rows ∧
    List.Forall₂ (fun exprs row => ownValues exprs = some row) phys rows

theorem width_of_alike {first : List LogicalExpr} {rest : List (List LogicalExpr)} (alike : Alike printer tuples)
    (bound : BindRows printer tuples (first :: rest)) : ∀ exprs ∈ first :: rest, exprs.length = first.length := by
  intro exprs inside
  obtain ⟨tuple, listed, boundRow⟩ := exists_left_of_forall₂ bound exprs inside
  cases bound with
  | cons boundFirst _ => rw [← boundRow.length_eq, ← boundFirst.length_eq, (alike _ rfl tuple listed).length_eq]

/-- An accepted INSERT whose tuples are alike, as those of every accepted one should be, inserts each tuple's own values
just where all its expressions evaluate. -/
theorem insert_values_own_iff {oid : ObjectID} {source : LogicalPlanNode} {required : LogicalSchema}
    (accepted : planInsert c printer tableName listed (.values tuples) before = .ok (.insert oid source required, after)) :
    ∃ values schema phys, HoldsValues source values schema ∧ BindRows printer tuples values ∧
      apply values schema = some (.values phys (schema.map (·.ctype))) ∧
        ∀ db, (Alike printer tuples ∧ ReturnsOwn db phys (schema.map (·.ctype))) ↔
          Alike printer tuples ∧ ∀ exprs ∈ phys, ∀ e ∈ exprs, (e.eval []).isSome = true := by
  obtain ⟨table, logicalSchema, later, sourceNode, -, -, planned, -, same⟩ := planInsert_returns accepted
  cases same
  obtain ⟨first, rest, bound, rfl⟩ := planRows_values planned
  obtain ⟨phys, applied, widths⟩ := exists_valuesPlan bound (first.mapIdx valuesColumn)
  refine ⟨first :: rest, first.mapIdx valuesColumn, phys, ?_, bound, applied, fun db => and_congr_right fun alike => ?_⟩
  · unfold alignedSource
    split
    · exact .inl rfl
    · exact .inr ⟨_, _, rfl⟩
  · rw [ReturnsOwn, Execution.planRows, valuesRows_own_iff]
    refine forall₂_congr fun exprs inside => ?_
    obtain ⟨row, listed, width⟩ := exists_left_of_forall₂ widths exprs inside
    rw [← isSome_ownValues, Option.isSome_iff_exists]
    refine exists_congr fun values => and_iff_left_of_imp fun evaluated => ?_
    rw [length_mapM evaluated, width, width_of_alike alike bound row listed]
    simp

end

open Ascii

def pairCatalog : SystemCatalog := .ofState ⟨1, [⟨1, "t", [⟨"a", .int⟩, ⟨"b", .int⟩], []⟩]⟩

def number (digit : Byte) : SqlExpr := .sqlVal .intVal [digit]

theorem hasType_number (digit : Byte) {i : Int64} (numeral : parseInt [digit] = some i) :
    HasType silentPrinter ⟨[]⟩ (number digit) .int := .number numeral

/-- `INSERT INTO t VALUES (1, 2), (3, 4)`. -/
theorem equal_tuples_inserted : ∃ values schema phys, BindRows silentPrinter [[number 49, number 50], [number 51, number 52]]
    values ∧ apply values schema = some (.values phys (schema.map (·.ctype))) ∧
      ∀ db, ReturnsOwn db phys (schema.map (·.ctype)) := by
  obtain ⟨values, schema, phys, holds, bound, applied, own⟩ := @insert_values_own_iff _ pairCatalog silentPrinter "t" []
    [[number 49, number 50], [number 51, number 52]] newLogicalPlanBuilder _ _ _ _ rfl
  refine ⟨values, schema, phys, bound, applied, fun db => ((own db).mpr ⟨?_, ?_⟩).2⟩
  · rintro first ⟨⟩ tuple inside
    have one := hasType_number 49 (i := 1) rfl
    have two := hasType_number 50 (i := 2) rfl
    rcases List.mem_pair.mp inside with rfl | rfl
    · exact .cons ⟨_, one, one⟩ (.cons ⟨_, two, two⟩ .nil)
    · exact .cons ⟨_, one, hasType_number 51 (i := 3) rfl⟩ (.cons ⟨_, two, hasType_number 52 (i := 4) rfl⟩ .nil)
  · rcases holds with same | ⟨_, _, same⟩
    · cases same
      cases applied
      decide
    · cases same

/-- `INSERT INTO t VALUES (1, 2), (3)` inserts the row (3, 2), and a text is accepted among numbers. -/
theorem short_tuple_filled : (∃ values schema after phys, planInsert pairCatalog silentPrinter "t" []
        (.values [[number 49, number 50], [number 51]]) newLogicalPlanBuilder =
          .ok (newLogicalInsertNode 1 (newLogicalValuesNode values schema), after) ∧
      apply values schema = some (.values phys (schema.map (·.ctype))) ∧
      ∀ db, Execution.planRows db (.values phys (schema.map (·.ctype))) = some [[.int 1, .int 2], [.int 3, .int 2]]) ∧
    ∃ plan after, planInsert pairCatalog silentPrinter "t" []
      (.values [[number 49, number 50], [number 51, .sqlVal .strVal [97]]]) newLogicalPlanBuilder = .ok (plan, after) :=
  ⟨⟨_, _, _, _, rfl, rfl, fun _ => rfl⟩, _, _, rfl⟩

end GoDB.Planner.LogicalPlanBuilder
