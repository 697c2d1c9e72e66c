import GoDB.Proofs.ColumnResolution
import GoDB.Proofs.StoredValues
import GoDB.Proofs.TypedExprs

/-! What `bindExpr` makes of an expression, and the types by which it decides. -/

namespace GoDB.Planner.LogicalPlanBuilder
open Common Lib Outcome List Option

def IsText (type : ValType) : Prop := type = .strVal ∨ type = .hexVal

section
variable [Identifiers] (printer : SqlPrinter) (scope : FromScope)

inductive Binds : Nat → SqlExpr → LogicalExpr → Prop
  | column {address : Nat} {qualifier name : String} {col : LogicalColumn}
      (found : bindColumn scope qualifier name = .ok col) : Binds address (.colName qualifier name) (.column col)
  | constant {address : Nat} {type : ValType} {val : List Byte} {v : Value}
      (read : bindConstant type val = .ok (.constant v)) : Binds address (.sqlVal type val) (.constant v)
  | comparison {address : Nat} {operator : ComparisonOperator} {left right : SqlExpr} {l r : LogicalExpr}
      {compType : ComparisonType} (boundLeft : Binds (address + 1) left l)
      (boundRight : Binds (address + 1 + nodes left) right r) (sameType : l.outputType = r.outputType)
      (known : sqlOpToComparisonType operator = some compType) :
      Binds address (.comparison operator left right) (.comparison address l r compType)
  | and {address : Nat} {left right : SqlExpr} {l r : LogicalExpr} (boundLeft : Binds (address + 1) left l)
      (boundRight : Binds (address + 1 + nodes left) right r) : Binds address (.and left right) (.logic address l r .and)
  | or {address : Nat} {left right : SqlExpr} {l r : LogicalExpr} (boundLeft : Binds (address + 1) left l)
      (boundRight : Binds (address + 1 + nodes left) right r) : Binds address (.or left right) (.logic address l r .or)
  | not {address : Nat} {expr : SqlExpr} {e : LogicalExpr} (bound : Binds (address + 1) expr e) :
      Binds address (.not expr) (.negation address e)
  | binary {address : Nat} {operator : BinaryOperator} {left right : SqlExpr} {l r : LogicalExpr}
      {op : ArithmeticType} (boundLeft : Binds (address + 1) left l)
      (boundRight : Binds (address + 1 + nodes left) right r) (known : sqlOpToArithmeticType operator = some op) :
      Binds address (.binary operator left right) (.arithmetic l r op)
  | paren {address : Nat} {expr : SqlExpr} {e : LogicalExpr} (bound : Binds address expr e) : Binds address (.paren expr) e
  | func {address : Nat} {name : String} {distinct : Bool} {exprs : List SelectExpr} {col : LogicalColumn}
      (found : calledColumn printer scope name distinct exprs = some col) :
      Binds address (.func name distinct exprs) (.column col)

/-- The types of expressions. Only the operands of a comparison have to agree. -/
inductive HasType : SqlExpr → FieldType → Prop
  | column {qualifier name : String} {col : LogicalColumn} (named : columnsNamed (scope.visible qualifier) name = [col]) :
      HasType (.colName qualifier name) col.ctype
  | text {type : ValType} {val : List Byte} (text : IsText type) (fits : val.length ≤ stringLength) :
      HasType (.sqlVal type val) .string
  | number {val : List Byte} {i : Int64} (numeral : parseInt val = some i) : HasType (.sqlVal .intVal val) .int
  | comparison {operator : ComparisonOperator} {left right : SqlExpr} {t : FieldType} (typeLeft : HasType left t)
      (typeRight : HasType right t) (known : (sqlOpToComparisonType operator).isSome = true) :
      HasType (.comparison operator left right) .int
  | and {left right : SqlExpr} {t u : FieldType} (typeLeft : HasType left t) (typeRight : HasType right u) :
      HasType (.and left right) .int
  | or {left right : SqlExpr} {t u : FieldType} (typeLeft : HasType left t) (typeRight : HasType right u) :
      HasType (.or left right) .int
  | not {expr : SqlExpr} {t : FieldType} (typeOf : HasType expr t) : HasType (.not expr) .int
  | binary {operator : BinaryOperator} {left right : SqlExpr} {t u : FieldType} (typeLeft : HasType left t)
      (typeRight : HasType right u) (known : (sqlOpToArithmeticType operator).isSome = true) :
      HasType (.binary operator left right) .int
  | paren {expr : SqlExpr} {t : FieldType} (typeOf : HasType expr t) : HasType (.paren expr) t
  | func {name : String} {distinct : Bool} {exprs : List SelectExpr} {col : LogicalColumn}
      (found : calledColumn printer scope name distinct exprs = some col) : HasType (.func name distinct exprs) col.ctype

/-- A text that is too long stands where the binder gets to: what is to the left of it has a type. -/
def Overlong : SqlExpr → Prop
  | .sqlVal type val => IsText type ∧ stringLength < val.length
  | .comparison _ left right | .and left right | .or left right | .binary _ left right =>
    Overlong left ∨ (∃ t, HasType printer scope left t) ∧ Overlong right
  | .not expr | .paren expr => Overlong expr
  | .colName _ _ | .nullVal | .is _ _ | .func _ _ _ | .other _ _ => False

end

variable {printer : SqlPrinter} {scope : FromScope} {address : Nat} {expr : SqlExpr} {e : LogicalExpr}

section Inversion
variable {type : ValType} {val : List Byte}

theorem bindConstant_of_isText (text : IsText type) :
    bindConstant type val = (ofOption (newStringValue val) >>= fun v => pure (.constant v)) := by
  rcases text with rfl | rfl <;> rfl

theorem bindConstant_eq_ok : bindConstant type val = .ok e ↔ (IsText type ∧ ∃ fits, e = .constant (.string ⟨val, fits⟩)) ∨
      (type = .intVal ∧ ∃ i, parseInt val = some i ∧ e = .constant (.int i)) := by
  by_cases text : IsText type
  · have other : type ≠ .intVal := by rcases text with rfl | rfl <;> decide
    rw [bindConstant_of_isText text, bind_eq_ok]
    simp only [ofOption_eq_ok, Value.newStringValue_eq_some_iff, text, other, true_and, false_and, or_false]
    constructor
    · rintro ⟨v, ⟨fits, rfl⟩, same⟩
      cases same
      exact ⟨fits, rfl⟩
    · rintro ⟨fits, rfl⟩
      exact ⟨_, ⟨fits, rfl⟩, rfl⟩
  · cases type with
    | strVal | hexVal => exact absurd (by simp [IsText]) text
    | intVal => cases numeral : parseInt val <;> simp [bindConstant, numeral, text, eq_comm]
    | _ => simp [bindConstant, text]

theorem bindConstant_eq_panics : bindConstant type val = .panics ↔ IsText type ∧ stringLength < val.length := by
  by_cases text : IsText type
  · rw [bindConstant_of_isText text, bind_eq_panics]
    simp [ofOption_eq_panics, newStringValue, text]
  · cases type with
    | strVal | hexVal => exact absurd (by simp [IsText]) text
    | intVal => cases numeral : parseInt val <;> simp [bindConstant, numeral, text]
    | _ => simp [bindConstant, text]

theorem compared_eq_ok {l r : LogicalExpr} {operator : ComparisonOperator} : compared address l r operator = .ok e ↔
    l.outputType = r.outputType ∧
      ∃ compType, sqlOpToComparisonType operator = some compType ∧ e = .comparison address l r compType := by
  unfold compared
  split
  next same => cases known : sqlOpToComparisonType operator <;> simp [same, eq_comm]
  next differ => simp [differ]

theorem computed_eq_ok {l r : LogicalExpr} {operator : BinaryOperator} : computed l r operator = .ok e ↔
    ∃ op, sqlOpToArithmeticType operator = some op ∧ e = .arithmetic l r op := by
  unfold computed
  cases known : sqlOpToArithmeticType operator <;> simp [eq_comm]

theorem compared_ne_panics (address : Nat) (l r : LogicalExpr) (operator : ComparisonOperator) :
    compared address l r operator ≠ .panics := by
  unfold compared
  split
  · cases sqlOpToComparisonType operator <;> simp
  · simp

theorem computed_ne_panics (l r : LogicalExpr) (operator : BinaryOperator) : computed l r operator ≠ .panics := by
  unfold computed
  cases sqlOpToArithmeticType operator <;> simp

theorem onlyColumn_ne_panics (found : List LogicalColumn) (ambiguous absent : PlanError) :
    onlyColumn found ambiguous absent ≠ .panics := by
  cases found with
  | nil => simp [onlyColumn]
  | cons first rest => cases rest <;> simp [onlyColumn]

variable [Identifiers] {name : String} {distinct : Bool} {exprs : List SelectExpr}

theorem bindCall_eq_ok : bindCall printer scope name distinct exprs = .ok e ↔
      ∃ col, calledColumn printer scope name distinct exprs = some col ∧ e = .column col := by
  unfold bindCall
  cases found : calledColumn printer scope name distinct exprs <;> simp [eq_comm]

theorem binds_of_bindExpr : {expr : SqlExpr} → {address : Nat} → {e : LogicalExpr} →
    bindExpr printer scope address expr = .ok e → Binds printer scope address expr e
  | .nullVal, _, _, bound | .is _ _, _, _, bound | .other _ _, _, _, bound => by cases bound
  | .colName _ _, _, _, bound => by
    obtain ⟨col, found, same⟩ := bind_eq_ok.mp bound
    cases same
    exact .column found
  | .sqlVal type val, _, _, bound => by
    rcases bindConstant_eq_ok.mp bound with ⟨text, fits, rfl⟩ | ⟨rfl, i, numeral, rfl⟩
    · exact .constant bound
    · exact .constant bound
  | .comparison _ _ _, _, _, bound => by
    obtain ⟨l, boundLeft, rest⟩ := bind_eq_ok.mp bound
    obtain ⟨r, boundRight, last⟩ := bind_eq_ok.mp rest
    obtain ⟨sameType, compType, known, rfl⟩ := compared_eq_ok.mp last
    exact .comparison (binds_of_bindExpr boundLeft) (binds_of_bindExpr boundRight) sameType known
  | .and _ _, _, _, bound => by
    obtain ⟨l, boundLeft, rest⟩ := bind_eq_ok.mp bound
    obtain ⟨r, boundRight, last⟩ := bind_eq_ok.mp rest
    cases last
    exact .and (binds_of_bindExpr boundLeft) (binds_of_bindExpr boundRight)
  | .or _ _, _, _, bound => by
    obtain ⟨l, boundLeft, rest⟩ := bind_eq_ok.mp bound
    obtain ⟨r, boundRight, last⟩ := bind_eq_ok.mp rest
    cases last
    exact .or (binds_of_bindExpr boundLeft) (binds_of_bindExpr boundRight)
  | .not _, _, _, bound => by
    obtain ⟨child, boundChild, last⟩ := bind_eq_ok.mp bound
    cases last
    exact .not (binds_of_bindExpr boundChild)
  | .binary _ _ _, _, _, bound => by
    obtain ⟨l, boundLeft, rest⟩ := bind_eq_ok.mp bound
    obtain ⟨r, boundRight, last⟩ := bind_eq_ok.mp rest
    obtain ⟨op, known, rfl⟩ := computed_eq_ok.mp last
    exact .binary (binds_of_bindExpr boundLeft) (binds_of_bindExpr boundRight) known
  | .paren _, _, _, bound => .paren (binds_of_bindExpr bound)
  | .func _ _ _, _, _, bound => by
    obtain ⟨col, found, rfl⟩ := bindCall_eq_ok.mp bound
    exact .func found

theorem bindExpr_eq_ok : bindExpr printer scope address expr = .ok e ↔ Binds printer scope address expr e := by
  refine ⟨binds_of_bindExpr, fun bound => ?_⟩
  induction bound with
  | column found => simp [bindExpr, found]
  | constant read => exact read
  | comparison _ _ sameType known boundLeft boundRight => simp [bindExpr, boundLeft, boundRight, compared, sameType, known]
  | and _ _ boundLeft boundRight => simp [bindExpr, boundLeft, boundRight]
  | or _ _ boundLeft boundRight => simp [bindExpr, boundLeft, boundRight]
  | not _ bound => simp [bindExpr, bound]
  | binary _ _ known boundLeft boundRight => simp [bindExpr, boundLeft, boundRight, computed, known]
  | paren _ bound => exact bound
  | func found => simp [bindExpr, bindCall, found]

variable {col : LogicalColumn}

theorem mem_of_findInScope (found : scope.findInScope name = some col) :
    ∃ source ∈ scope.sourceTables, col ∈ source.schema :=
  mem_flatMap.mp (mem_of_find?_eq_some found)

theorem mem_of_calledColumn (found : calledColumn printer scope name distinct exprs = some col) :
    ∃ source ∈ scope.sourceTables, col ∈ source.schema := by
  rcases or_eq_some_iff.mp found with named | ⟨-, counted⟩
  · exact mem_of_findInScope named
  · split at counted
    · split at counted
      · exact mem_of_findInScope counted
      · exact mem_of_findInScope counted
      · cases counted
    · cases counted

theorem Binds.columns (bound : Binds printer scope address expr e) :
    ∀ col ∈ e.getReferencedColumns, ∃ source ∈ scope.sourceTables, col ∈ source.schema := by
  induction bound with
  | column found =>
    have named := bindColumn_eq_ok.mp found
    obtain ⟨⟨source, visible, used⟩, -⟩ := mem_columnsNamed.mp (named ▸ mem_singleton_self _)
    exact forall_mem_singleton.mpr ⟨source, (mem_visible.mp visible).1, used⟩
  | constant => exact forall_mem_nil _
  | comparison _ _ _ _ left right | and _ _ left right | or _ _ left right | binary _ _ _ left right =>
    exact forall_mem_append.mpr ⟨left, right⟩
  | not _ child | paren _ child => exact child
  | func found => exact forall_mem_singleton.mpr (mem_of_calledColumn found)

end Inversion

section Types
variable [Identifiers]

theorem Binds.hasType (bound : Binds printer scope address expr e) : HasType printer scope expr e.outputType := by
  induction bound with
  | column found => exact .column (bindColumn_eq_ok.mp found)
  | constant read =>
    rcases bindConstant_eq_ok.mp read with ⟨text, fits, same⟩ | ⟨rfl, i, numeral, same⟩
    · cases same
      exact .text text fits
    · cases same
      exact .number numeral
  | comparison _ _ sameType known typeLeft typeRight =>
    exact .comparison (sameType ▸ typeLeft) typeRight (isSome_of_eq_some known)
  | and _ _ typeLeft typeRight => exact .and typeLeft typeRight
  | or _ _ typeLeft typeRight => exact .or typeLeft typeRight
  | not _ typeOf => exact .not typeOf
  | binary _ _ known typeLeft typeRight => exact .binary typeLeft typeRight (isSome_of_eq_some known)
  | paren _ typeOf => exact .paren typeOf
  | func found => exact .func found

theorem HasType.binds {t : FieldType} (typed : HasType printer scope expr t) (address : Nat) :
    ∃ e, Binds printer scope address expr e ∧ e.outputType = t := by
  induction typed generalizing address with
  | column named => exact ⟨_, .column (bindColumn_eq_ok.mpr named), rfl⟩
  | text text fits => exact ⟨_, .constant (bindConstant_eq_ok.mpr (.inl ⟨text, fits, rfl⟩)), rfl⟩
  | number numeral => exact ⟨_, .constant (bindConstant_eq_ok.mpr (.inr ⟨rfl, _, numeral, rfl⟩)), rfl⟩
  | @comparison operator left right t typeLeft typeRight known boundLeft boundRight =>
    obtain ⟨l, bindsLeft, rfl⟩ := boundLeft (address + 1)
    obtain ⟨r, bindsRight, sameType⟩ := boundRight (address + 1 + nodes left)
    obtain ⟨compType, known⟩ := isSome_iff_exists.mp known
    exact ⟨_, .comparison bindsLeft bindsRight sameType.symm known, rfl⟩
  | @and left right t u typeLeft typeRight boundLeft boundRight =>
    obtain ⟨l, bindsLeft, -⟩ := boundLeft (address + 1)
    obtain ⟨r, bindsRight, -⟩ := boundRight (address + 1 + nodes left)
    exact ⟨_, .and bindsLeft bindsRight, rfl⟩
  | @or left right t u typeLeft typeRight boundLeft boundRight =>
    obtain ⟨l, bindsLeft, -⟩ := boundLeft (address + 1)
    obtain ⟨r, bindsRight, -⟩ := boundRight (address + 1 + nodes left)
    exact ⟨_, .or bindsLeft bindsRight, rfl⟩
  | not _ bound =>
    obtain ⟨child, binds, -⟩ := bound (address + 1)
    exact ⟨_, .not binds, rfl⟩
  | @binary operator left right t u typeLeft typeRight known boundLeft boundRight =>
    obtain ⟨l, bindsLeft, -⟩ := boundLeft (address + 1)
    obtain ⟨r, bindsRight, -⟩ := boundRight (address + 1 + nodes left)
    obtain ⟨op, known⟩ := isSome_iff_exists.mp known
    exact ⟨_, .binary bindsLeft bindsRight known, rfl⟩
  | paren _ bound =>
    obtain ⟨child, binds, same⟩ := bound address
    exact ⟨_, .paren binds, same⟩
  | func found => exact ⟨_, .func found, rfl⟩

theorem exists_bindExpr_iff (address : Nat) :
    (∃ e, bindExpr printer scope address expr = .ok e) ↔ ∃ t, HasType printer scope expr t := by
  constructor
  · rintro ⟨e, bound⟩
    exact ⟨_, (bindExpr_eq_ok.mp bound).hasType⟩
  · rintro ⟨t, typed⟩
    obtain ⟨e, binds, -⟩ := typed.binds address
    exact ⟨e, bindExpr_eq_ok.mpr binds⟩

theorem HasType.unique {t : FieldType} (typed : HasType printer scope expr t) (bound : Binds printer scope address expr e) :
    e.outputType = t := by
  obtain ⟨other, binds, same⟩ := typed.binds address
  have both := (bindExpr_eq_ok.mpr bound).symm.trans (bindExpr_eq_ok.mpr binds)
  cases both
  exact same

theorem operands_panic {left right : SqlExpr} {later : Nat} {last : LogicalExpr → LogicalExpr → Outcome PlanError LogicalExpr}
    (returns : ∀ l r, last l r ≠ .panics) (first : bindExpr printer scope address left = .panics ↔ Overlong printer scope left)
    (second : bindExpr printer scope later right = .panics ↔ Overlong printer scope right) :
    (bindExpr printer scope address left >>= fun l => bindExpr printer scope later right >>= fun r => last l r) = .panics ↔
      Overlong printer scope left ∨ (∃ t, HasType printer scope left t) ∧ Overlong printer scope right := by
  rw [bind_eq_panics, first, ← exists_bindExpr_iff address]
  simp [bind_eq_panics, second, returns]

theorem bindExpr_eq_panics : (expr : SqlExpr) → (address : Nat) →
    (bindExpr printer scope address expr = .panics ↔ Overlong printer scope expr)
  | .colName qualifier name, _ => by simp [bindExpr, bind_eq_panics, bindColumn, onlyColumn_ne_panics, Overlong]
  | .sqlVal _ _, _ => bindConstant_eq_panics
  | .nullVal, _ | .is _ _, _ | .other _ _, _ => by simp [bindExpr, Overlong]
  | .comparison operator left right, address =>
    operands_panic (fun l r => compared_ne_panics address l r operator) (bindExpr_eq_panics left _)
      (bindExpr_eq_panics right _)
  | .and left right, _ | .or left right, _ =>
    operands_panic (fun _ _ => by simp) (bindExpr_eq_panics left _) (bindExpr_eq_panics right _)
  | .binary operator left right, _ =>
    operands_panic (fun l r => computed_ne_panics l r operator) (bindExpr_eq_panics left _) (bindExpr_eq_panics right _)
  | .not child, address => by
    have inner := bindExpr_eq_panics child (address + 1)
    simp [bindExpr, bind_eq_panics, inner, Overlong]
  | .paren child, address => bindExpr_eq_panics child address
  | .func name distinct exprs, _ => by
    cases found : calledColumn printer scope name distinct exprs <;> simp [bindExpr, bindCall, found, Overlong]

end Types
end GoDB.Planner.LogicalPlanBuilder
