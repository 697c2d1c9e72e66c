import GoDB.Execution.Executors
import GoDB.Proofs.TupleBytes

/-! The rows that a block nested loop join returns. A row is copied through the
bytes of a page on its way into a block and again when two rows are merged, so a
value that has no bytes of its own comes out as another one. -/

namespace GoDB.Execution
open Common Lib Storage Indexing Planner List Tuple Int64 Value

def storedRow (row : Row) : Row := row.map stored

def joinedRows (predicate : PhysicalExpr) (left right : List Row) : List Row :=
  ((pairs left right).map joined).filter fun row => predicate.test row = some true

theorem joinedRows_append (predicate : PhysicalExpr) (left others right : List Row) :
    joinedRows predicate (left ++ others) right = joinedRows predicate left right ++ joinedRows predicate others right := by
  simp [joinedRows, pairs]

theorem pairs_cons_right (left : List Row) (row : Row) (right : List Row) :
    (pairs left (row :: right)).Perm (left.map (·, row) ++ pairs left right) := by
  induction left with
  | nil => exact .refl _
  | cons first left ih =>
    refine List.Perm.cons _ ?_
    exact (ih.append_left _).trans (perm_append_comm_assoc _ _ _)

theorem joinedRows_cons_right (predicate : PhysicalExpr) (left : List Row) (row : Row) (right : List Row) :
    (joinedRows predicate left (row :: right)).Perm
      ((left.map (· ++ row)).filter (fun row => predicate.test row = some true) ++ joinedRows predicate left right) := by
  have split := ((pairs_cons_right left row right).map joined).filter fun row => predicate.test row = some true
  rw [map_append, filter_append, map_map] at split
  exact split

variable {σ τ : Type} {left : Executor σ} {right : Executor τ} {leftSchema rightSchema : List FieldType}
  {predicate : PhysicalExpr}

section Fuel

theorem loadLeftBlock_mono {fuel more : Nat} (enough : fuel ≤ more) (e : BlockNestedLoopJoinExecutor σ τ) :
    Follows Eq (loadLeftBlock fuel left e) (loadLeftBlock more left e) := by
  refine .bind_same fun desc => ?_
  refine Follows.bind (fun result returned => ⟨result, repeatUntil_mono (fun _ _ same => same) returned enough, rfl⟩) ?_
  rintro ⟨err, block, below⟩ _ rfl
  exact .of_eq rfl

theorem joinStep_mono {fuel more : Nat} (enough : fuel ≤ more) (e : BlockNestedLoopJoinExecutor σ τ) :
    Follows Eq (joinStep fuel left right predicate e) (joinStep more left right predicate e) := by
  unfold joinStep
  split
  next => exact .of_eq rfl
  next =>
    split
    next => exact .of_eq rfl
    next =>
      refine (Follows.of_eq rfl).bind ?_
      rintro ⟨found, below⟩ _ rfl
      cases found with
      | true => exact .of_eq rfl
      | false =>
        simp only [nextBlock, Bool.false_eq_true, if_false]
        split
        next => exact .of_eq rfl
        next =>
          refine (loadLeftBlock_mono enough _).bind ?_
          rintro result _ rfl
          exact .of_eq rfl

end Fuel

def Produces (left : Executor σ) (right : Executor τ) (leftSchema rightSchema : List FieldType) (predicate : PhysicalExpr)
    (e : BlockNestedLoopJoinExecutor σ τ) (rows : List Row) : Prop :=
  ∃ enough, ∀ fuel ≥ enough, ∃ out,
    (blockNestedLoopJoinExecutor fuel left right leftSchema rightSchema predicate).Yields e out ∧ (out.map values).Perm rows

namespace Produces
variable {e later : BlockNestedLoopJoinExecutor σ τ} {rows others : List Row}

theorem perm (produces : Produces left right leftSchema rightSchema predicate e rows) (same : rows.Perm others) :
    Produces left right leftSchema rightSchema predicate e others := by
  obtain ⟨enough, runs⟩ := produces
  refine ⟨enough, fun fuel bound => ?_⟩
  obtain ⟨out, yields, rowsOf⟩ := runs fuel bound
  exact ⟨out, yields, rowsOf.trans same⟩

theorem of_continue {first : Nat} (continues : ∀ fuel ≥ first, joinStep fuel left right predicate e = some (.inl later))
    (produces : Produces left right leftSchema rightSchema predicate later rows) :
    Produces left right leftSchema rightSchema predicate e rows := by
  obtain ⟨enough, runs⟩ := produces
  refine ⟨first + enough + 1, fun fuel bound => ?_⟩
  obtain ⟨less, rfl⟩ := Nat.exists_eq_add_of_lt (Nat.lt_of_lt_of_le (Nat.lt_succ_self _) bound)
  obtain ⟨out, yields, rowsOf⟩ := runs (first + enough + less + 1) (by omega)
  refine ⟨out, yields.of_next ?_, rowsOf⟩
  obtain ⟨_, short, -⟩ := runs (first + enough + less) (by omega)
  have called : ∃ result, repeatUntil (joinStep (first + enough + less) left right predicate)
      (first + enough + less) later = some result := by
    cases short with
    | done finished => exact ⟨_, finished⟩
    | more advanced => exact ⟨_, advanced⟩
  obtain ⟨result, returned⟩ := called
  have extends' : ∀ s outcome, joinStep (first + enough + less) left right predicate s = some outcome →
      joinStep (first + enough + less + 1) left right predicate s = some outcome := by
    intro s outcome taken
    obtain ⟨_, taken', rfl⟩ := joinStep_mono (Nat.le_succ _) s outcome taken
    exact taken'
  exact (repeatUntil_continue (continues _ (by omega))).trans
    ((repeatUntil_mono extends' returned le_rfl).trans (repeatUntil_mono extends' returned (Nat.le_succ _)).symm)

theorem of_row (returns : ∀ fuel, joinStep fuel left right predicate e = some (.inr (true, later))) {t : Tuple}
    (current : later.current = some t) (produces : Produces left right leftSchema rightSchema predicate later rows) :
    Produces left right leftSchema rightSchema predicate e (t.values :: rows) := by
  obtain ⟨enough, runs⟩ := produces
  refine ⟨enough + 1, fun fuel bound => ?_⟩
  obtain ⟨fuel, rfl⟩ := Nat.exists_eq_add_of_lt (Nat.lt_of_lt_of_le (Nat.zero_lt_succ _) bound)
  obtain ⟨out, yields, rowsOf⟩ := runs (0 + fuel + 1) (by omega)
  exact ⟨t :: out, .more (repeatUntil_return (returns _)) current yields, rowsOf.cons _⟩

theorem of_end {first : Nat} (ends : ∀ fuel ≥ first, joinStep fuel left right predicate e = some (.inr (false, later))) :
    Produces left right leftSchema rightSchema predicate e [] := by
  refine ⟨first + 1, fun fuel bound => ?_⟩
  obtain ⟨fuel, rfl⟩ := Nat.exists_eq_add_of_lt (Nat.lt_of_lt_of_le (Nat.lt_succ_self _) bound)
  exact ⟨[], .done (repeatUntil_return (ends _ (by omega))), .nil⟩

end Produces

section Blocks
variable {lefts rights : List Tuple} {leftDesc joinedDesc : RawTupleDesc}

theorem load_spec {s : σ} {rest : List Tuple} (ahead : left.Ahead lefts s rest)
    (fits : ∀ t ∈ rest, t.Fits leftDesc.fields) (used : Nat) (block : List Tuple) :
    ∃ taken later copies below, rest = taken ++ later ∧ (used < blockSize → rest ≠ [] → taken ≠ []) ∧
      (∀ copied ∈ copies, copied.Plain leftDesc) ∧
      copies.map values = taken.map (fun t => storedRow t.values) ∧ left.Ahead lefts below later ∧
      ∀ fuel > rest.length, repeatUntil (loadStep left leftDesc) fuel (used, block, s) =
        some (none, block ++ copies, below) := by
  induction rest generalizing s used block with
  | nil =>
    by_cases full : blockSize ≤ used
    · refine ⟨[], [], [], s, rfl, fun _ none => (none rfl).elim, by simp, rfl, ahead, fun fuel bound => ?_⟩
      obtain ⟨fuel, rfl⟩ := Nat.exists_eq_add_of_lt bound
      exact repeatUntil_return (by simp [loadStep, full])
    · obtain ⟨below, finished, -, ahead⟩ := ahead.done
      refine ⟨[], [], [], below, rfl, fun _ none => (none rfl).elim, by simp, rfl, ahead, fun fuel bound => ?_⟩
      obtain ⟨fuel, rfl⟩ := Nat.exists_eq_add_of_lt bound
      exact repeatUntil_return (by simp [loadStep, full, finished])
  | cons t rest ih =>
    by_cases full : blockSize ≤ used
    · refine ⟨[], t :: rest, [], s, rfl, fun room _ => by omega, by simp, rfl, ahead, fun fuel bound => ?_⟩
      obtain ⟨fuel, rfl⟩ := Nat.exists_eq_add_of_lt bound
      exact repeatUntil_return (by simp [loadStep, full])
    · obtain ⟨below, advanced, current, fine, ahead⟩ := ahead.more
      obtain ⟨here, others⟩ := forall_mem_cons.mp fits
      obtain ⟨copied, copies, plain, values⟩ := exists_deepCopy here
      obtain ⟨taken, later, more, last, same, -, plains, valuesOf, ahead, loads⟩ :=
        ih ahead others (used + tupleSize copied) (block ++ [copied])
      refine ⟨t :: taken, later, copied :: more, last, by rw [same]; rfl, fun _ _ => cons_ne_nil _ _,
        forall_mem_cons.mpr ⟨plain, plains⟩, by rw [map_cons, map_cons, valuesOf, values]; rfl, ahead,
        fun fuel bound => ?_⟩
      obtain ⟨fuel, rfl⟩ := Nat.exists_eq_add_of_lt bound
      have step : loadStep left leftDesc (used, block, s) =
          some (.inl (used + tupleSize copied, block ++ [copied], below)) := by
        simp [loadStep, full, advanced, current, fine, copies]
      rw [length_cons, repeatUntil_continue step, loads _ (by omega), append_assoc]
      rfl

/-- The join between two turns of its loops: what the children have left and the
block that is being joined. -/
structure Between (left : Executor σ) (right : Executor τ) (lefts rights : List Tuple) (leftDesc joinedDesc : RawTupleDesc)
    (ahead waiting block : List Tuple) (e : BlockNestedLoopJoinExecutor σ τ) : Prop where
  leftDesc_eq : e.leftDesc = some leftDesc
  joinedDesc_eq : e.joinedDesc = some joinedDesc
  room : e.joinedBuf.length = joinedDesc.bytesPerTuple
  leftAhead : left.Ahead lefts e.left ahead
  rightAhead : right.Ahead rights e.right waiting
  block_eq : e.leftblock = block
  nonempty : block ≠ []

variable {ahead waiting block : List Tuple} {e : BlockNestedLoopJoinExecutor σ τ} {rows : List Row}

theorem produces_of_block (layout : joinedDesc.fields = leftDesc.fields ++ rightSchema) {r : Tuple}
    (fits : r.Fits rightSchema) {before todo : List Tuple}
    (between : Between left right lefts rights leftDesc joinedDesc ahead waiting (before ++ todo) e)
    (busy : e.rightHasCur = true) (current : right.current e.right = some r) (index : e.blockidx = before.length)
    (plain : ∀ l ∈ todo, l.Plain leftDesc)
    (evaluable : ∀ l ∈ todo, (predicate.test (l.values ++ storedRow r.values)).isSome = true)
    (rest : ∀ e, Between left right lefts rights leftDesc joinedDesc ahead waiting (before ++ todo) e →
      e.rightHasCur = false → Produces left right leftSchema rightSchema predicate e rows) :
    Produces left right leftSchema rightSchema predicate e
      (((todo.map values).map (· ++ storedRow r.values)).filter (fun row => predicate.test row = some true) ++ rows) := by
  have turn : e.leftblock.isEmpty = false := by
    rw [between.block_eq, isEmpty_eq_false_iff]
    exact between.nonempty
  induction todo generalizing before e with
  | nil =>
    have past : e.leftblock[e.blockidx]? = none := by
      rw [between.block_eq, index, append_nil, getElem?_length]
    have goes : ∀ fuel ≥ 0, joinStep fuel left right predicate e = some (.inl { e with rightHasCur := false }) := by
      intro fuel _
      simp [joinStep, turn, busy, past]
    exact .of_continue goes (rest _ { between with } rfl)
  | cons l todo ih =>
    obtain ⟨plainHere, plain⟩ := forall_mem_cons.mp plain
    obtain ⟨evaluableHere, evaluable⟩ := forall_mem_cons.mp evaluable
    have here : e.leftblock[e.blockidx]? = some l := by
      rw [between.block_eq, index, getElem?_append_right le_rfl, Nat.sub_self, getElem?_cons_zero]
    obtain ⟨out, merged, size, values⟩ := values_mergeTuples plainHere fits layout between.room
    obtain ⟨passed, tested⟩ := Option.isSome_iff_exists.mp evaluableHere
    have tested' : predicate.test (joinedDesc.values out) = some passed := by
      rw [values]
      exact tested
    rw [append_cons] at between rest
    have later : ∀ current', Between left right lefts rights leftDesc joinedDesc ahead waiting (before ++ [l] ++ todo)
        { e with blockidx := e.blockidx + 1, joinedBuf := out, current := current' } :=
      fun current' => { between with room := size.trans between.room }
    have moved : e.blockidx + 1 = (before ++ [l]).length := by rw [index, length_append, length_singleton]
    rw [map_cons, map_cons]
    cases passed with
    | false =>
      rw [filter_cons_of_neg (by simp [tested])]
      have goes : ∀ fuel ≥ 0, joinStep fuel left right predicate e =
          some (.inl { e with blockidx := e.blockidx + 1, joinedBuf := out }) := by
        intro fuel _
        simp [joinStep, turn, busy, here, between.joinedDesc_eq, current, merged, tested']
      exact .of_continue goes (ih (later e.current) busy current moved plain evaluable rest turn)
    | true =>
      rw [filter_cons_of_pos (by simp [tested])]
      have returns : ∀ fuel, joinStep fuel left right predicate e =
          some (.inr (true, { e with
            blockidx := e.blockidx + 1, joinedBuf := out, current := some (.fromRawTuple out joinedDesc zeroRID) })) := by
        intro fuel
        simp [joinStep, turn, busy, here, between.joinedDesc_eq, current, merged, tested']
      have row : l.values ++ storedRow r.values = (fromRawTuple out joinedDesc zeroRID).values := by
        rw [fromRawTuple, values_some, append_nil, values]
        rfl
      rw [row]
      exact .of_row returns rfl (ih (later _) busy current moved plain evaluable rest turn)

theorem produces_of_waiting (layout : joinedDesc.fields = leftDesc.fields ++ rightSchema)
    (fits : ∀ r ∈ waiting, r.Fits rightSchema)
    (between : Between left right lefts rights leftDesc joinedDesc ahead waiting block e) (idle : e.rightHasCur = false)
    (plain : ∀ l ∈ block, l.Plain leftDesc)
    (evaluable : ∀ l ∈ block, ∀ r ∈ waiting, (predicate.test (l.values ++ storedRow r.values)).isSome = true)
    (rest : ∀ e, Between left right lefts rights leftDesc joinedDesc ahead [] block e → e.rightHasCur = false →
      Produces left right leftSchema rightSchema predicate e rows) :
    Produces left right leftSchema rightSchema predicate e
      (joinedRows predicate (block.map values) (waiting.map fun r => storedRow r.values) ++ rows) := by
  induction waiting generalizing e with
  | nil =>
    have none : joinedRows predicate (block.map values) [] = [] := by simp [joinedRows, pairs]
    rw [map_nil, none, nil_append]
    exact rest e between idle
  | cons r waiting ih =>
    obtain ⟨fitsHere, fits⟩ := forall_mem_cons.mp fits
    obtain ⟨below, advanced, current, -, ahead⟩ := between.rightAhead.more
    have turn : e.leftblock.isEmpty = false := by
      rw [between.block_eq, isEmpty_eq_false_iff]
      exact between.nonempty
    have goes : ∀ fuel ≥ 0, joinStep fuel left right predicate e =
        some (.inl { e with right := below, rightHasCur := true, blockidx := 0 }) := by
      intro fuel _
      simp [joinStep, turn, idle, advanced]
    have next : Between left right lefts rights leftDesc joinedDesc _ waiting ([] ++ block)
        { e with right := below, rightHasCur := true, blockidx := 0 } := { between with rightAhead := ahead }
    have one := produces_of_block layout fitsHere next rfl current rfl plain
      (fun l member => evaluable l member r mem_cons_self)
      (fun e between idle => ih fits between idle fun l inside r member => evaluable l inside r (mem_cons_of_mem _ member))
    refine (Produces.of_continue goes one).perm ?_
    rw [map_cons, ← append_assoc]
    exact (joinedRows_cons_right predicate _ _ _).symm.append_right _

structure Loads (left : Executor σ) (lefts : List Tuple) (leftDesc : RawTupleDesc) (ahead later copies : List Tuple)
    (below : σ) : Prop where
  plain : ∀ copied ∈ copies, copied.Plain leftDesc
  rows : ahead.map (fun l => storedRow l.values) = copies.map values ++ later.map (fun l => storedRow l.values)
  shorter : copies ≠ [] → later.length < ahead.length
  all : copies = [] → ahead = []
  inside : ∀ l ∈ later, l ∈ ahead
  leftAhead : left.Ahead lefts below later

theorem exists_loads (leftAhead : left.Ahead lefts e.left ahead) (desc : e.leftDesc = some leftDesc)
    (fits : ∀ l ∈ ahead, l.Fits leftDesc.fields) : ∃ later copies below, Loads left lefts leftDesc ahead later copies below ∧
      ∀ fuel > ahead.length, loadLeftBlock fuel left e = some (none, { e with leftblock := copies, left := below }) := by
  obtain ⟨taken, later, copies, below, rfl, some', plain, values, leftAhead, loads⟩ := load_spec leftAhead fits 0 []
  have lengths := congrArg length values
  rw [length_map, length_map] at lengths
  refine ⟨later, copies, below, ⟨plain, by rw [map_append, values], fun present => ?_, fun empty => ?_,
    fun l member => mem_append_right _ member, leftAhead⟩, fun fuel bound => ?_⟩
  · have positive := length_pos_iff.mpr present
    rw [length_append]
    omega
  · by_contra present
    have positive := length_pos_iff.mpr (some' (by decide) present)
    rw [empty, length_nil] at lengths
    omega
  · simp [loadLeftBlock, desc, loads fuel bound]

theorem produces_of_between (layout : joinedDesc.fields = leftDesc.fields ++ rightSchema)
    (fitsLeft : ∀ l ∈ ahead, l.Fits leftDesc.fields) (fitsRight : ∀ r ∈ rights, r.Fits rightSchema)
    (fitsWaiting : ∀ r ∈ waiting, r.Fits rightSchema)
    (between : Between left right lefts rights leftDesc joinedDesc ahead waiting block e) (idle : e.rightHasCur = false)
    (plain : ∀ l ∈ block, l.Plain leftDesc)
    (evaluable : ∀ l ∈ block, ∀ r ∈ waiting, (predicate.test (l.values ++ storedRow r.values)).isSome = true)
    (evaluableAhead : ∀ l ∈ ahead.map (fun l => storedRow l.values), ∀ r ∈ rights,
      (predicate.test (l ++ storedRow r.values)).isSome = true) :
    Produces left right leftSchema rightSchema predicate e
      (joinedRows predicate (block.map values) (waiting.map fun r => storedRow r.values) ++
        joinedRows predicate (ahead.map fun l => storedRow l.values) (rights.map fun r => storedRow r.values)) := by
  induction size : ahead.length using Nat.strongRecOn generalizing ahead waiting block e with
  | ind count ih =>
    refine produces_of_waiting layout fitsWaiting between idle plain evaluable fun e between idle => ?_
    have turn : e.leftblock.isEmpty = false := by
      rw [between.block_eq, isEmpty_eq_false_iff]
      exact between.nonempty
    obtain ⟨below, finished, fine, rightAhead⟩ := between.rightAhead.done
    have enters : ∀ fuel, joinStep fuel left right predicate e = nextBlock fuel left right { e with right := below } := by
      intro fuel
      simp [joinStep, turn, idle, finished]
    obtain ⟨later, copies, below', loads, loaded⟩ :=
      @exists_loads _ _ left lefts leftDesc ahead { e with right := below } between.leftAhead between.leftDesc_eq fitsLeft
    cases copies with
    | nil =>
      cases loads.all rfl
      have ends : ∀ fuel ≥ 1, joinStep fuel left right predicate e =
          some (.inr (false, { e with right := below, leftblock := [], left := below' })) := by
        intro fuel bound
        simp [enters, nextBlock, fine, loaded fuel bound]
      exact .of_end ends
    | cons first copies =>
      obtain ⟨start, began, rightAhead⟩ := rightAhead.again.init
      have goes : ∀ fuel ≥ ahead.length + 1, joinStep fuel left right predicate e =
          some (.inl { e with right := start, leftblock := first :: copies, left := below' }) := by
        intro fuel bound
        simp [enters, nextBlock, fine, loaded fuel bound, began]
      rw [loads.rows] at evaluableAhead ⊢
      rw [joinedRows_append]
      obtain ⟨evaluable, evaluableAhead⟩ := forall_mem_append.mp evaluableAhead
      refine .of_continue goes (ih later.length (size ▸ loads.shorter (cons_ne_nil _ _))
        (fun l member => fitsLeft l (loads.inside l member)) fitsRight ?_ idle loads.plain
        (fun l member => evaluable _ (mem_map_of_mem member)) evaluableAhead rfl)
      exact { between with leftAhead := loads.leftAhead, rightAhead := rightAhead, block_eq := rfl,
                           nonempty := cons_ne_nil _ _ }

theorem exists_joined_run {e : BlockNestedLoopJoinExecutor σ τ} (leftRepeats : left.Repeats e.left lefts)
    (rightRepeats : right.Repeats e.right rights) (fitsLeft : ∀ l ∈ lefts, l.Fits leftSchema)
    (fitsRight : ∀ r ∈ rights, r.Fits rightSchema) (narrow : bytesOf (leftSchema ++ rightSchema) ≤ pageSize - 32)
    (evaluable : ∀ l ∈ lefts, ∀ r ∈ rights, (predicate.test (storedRow (l.values ++ r.values))).isSome = true) :
    ∃ start enough, (∀ fuel ≥ enough,
        (blockNestedLoopJoinExecutor fuel left right leftSchema rightSchema predicate).init e = some (none, start)) ∧
      Produces left right leftSchema rightSchema predicate start
        (joinedRows predicate (lefts.map fun l => storedRow l.values) (rights.map fun r => storedRow r.values)) := by
  obtain ⟨belowLeft, beganLeft, leftAhead⟩ := leftRepeats.init
  obtain ⟨belowRight, beganRight, rightAhead⟩ := rightRepeats.init
  have narrowLeft : bytesOf leftSchema ≤ pageSize - 32 := by
    refine le_trans ?_ narrow
    simp [bytesOf]
  let ready : BlockNestedLoopJoinExecutor σ τ :=
    { e with
      left := belowLeft, right := belowRight
      leftDesc := some ⟨leftSchema, narrowLeft⟩, joinedDesc := some ⟨leftSchema ++ rightSchema, narrow⟩
      joinedBuf := replicate (bytesOf (leftSchema ++ rightSchema)) 0, leftblock := [], blockidx := 0
      rightHasCur := false }
  obtain ⟨later, copies, below, loads, loaded⟩ :=
    @exists_loads _ _ left lefts ⟨leftSchema, narrowLeft⟩ lefts ready leftAhead rfl fitsLeft
  refine ⟨{ ready with leftblock := copies, left := below }, lefts.length + 1, fun fuel bound => ?_, ?_⟩
  · have made := loaded fuel bound
    simp only [blockNestedLoopJoinExecutor, beganLeft, beganRight, newRawTupleDesc, dif_pos narrow, dif_pos narrowLeft]
    exact made
  · cases copies with
    | nil =>
      cases loads.all rfl
      have ends : ∀ fuel ≥ 0, joinStep fuel left right predicate { ready with leftblock := [], left := below } =
          some (.inr (false, { ready with leftblock := [], left := below })) := fun _ _ => rfl
      exact .of_end ends
    | cons first copies =>
      have ahead : ∀ l ∈ lefts.map (fun l => storedRow l.values), ∀ r ∈ rights,
          (predicate.test (l ++ storedRow r.values)).isSome = true := by
        intro _ stored r inside
        obtain ⟨l, member, rfl⟩ := mem_map.mp stored
        have defined := evaluable l member r inside
        rwa [storedRow, map_append] at defined
      rw [loads.rows] at ahead ⊢
      obtain ⟨evaluable, evaluableAhead⟩ := forall_mem_append.mp ahead
      rw [joinedRows_append]
      have between : Between left right lefts rights ⟨leftSchema, narrowLeft⟩ ⟨leftSchema ++ rightSchema, narrow⟩ later
          rights (first :: copies) { ready with leftblock := first :: copies, left := below } :=
        ⟨rfl, rfl, length_replicate, loads.leftAhead, rightAhead, rfl, cons_ne_nil _ _⟩
      exact produces_of_between rfl (fun l member => fitsLeft l (loads.inside l member)) fitsRight fitsRight between rfl
        loads.plain (fun l member => evaluable _ (mem_map_of_mem member)) evaluableAhead

end Blocks

@[simp] theorem storedRow_storedRow (row : Row) : storedRow (storedRow row) = storedRow row := by
  have twice : stored ∘ stored = stored := funext fun v => stored_asValue _ _
  rw [storedRow, storedRow, map_map, twice]

theorem joinedRows_storedRow (left right : List Row) :
    joinedRows predicate (left.map storedRow) (right.map storedRow) =
      (((pairs left right).map joined).map storedRow).filter fun row => predicate.test row = some true := by
  simp [joinedRows, pairs, joined, storedRow, map_flatMap, flatMap_map, Function.comp_def]

/-- For children that can be started again, `Init` and `Next` until it finds nothing
return every pair of rows that satisfies the predicate once, unless a pair that
satisfies it, before or after it went through its bytes, is changed by them. -/
theorem block_nested_loop_join_iff {e : BlockNestedLoopJoinExecutor σ τ} {lefts rights : List Tuple}
    (leftRepeats : left.Repeats e.left lefts) (rightRepeats : right.Repeats e.right rights)
    (fitsLeft : ∀ l ∈ lefts, l.Fits leftSchema) (fitsRight : ∀ r ∈ rights, r.Fits rightSchema)
    (narrow : bytesOf (leftSchema ++ rightSchema) ≤ pageSize - 32)
    (evaluable : ∀ l ∈ lefts, ∀ r ∈ rights, (predicate.test (storedRow (l.values ++ r.values))).isSome = true) :
    (∃ enough, ∀ fuel ≥ enough, ∃ start out,
        (blockNestedLoopJoinExecutor fuel left right leftSchema rightSchema predicate).init e = some (none, start) ∧
        (blockNestedLoopJoinExecutor fuel left right leftSchema rightSchema predicate).Yields start out ∧
        (out.map values).Perm (joinedRows predicate (lefts.map values) (rights.map values))) ↔
      ∀ l ∈ lefts, ∀ r ∈ rights, storedRow (l.values ++ r.values) = l.values ++ r.values ∨
        (predicate.test (l.values ++ r.values) ≠ some true ∧
          predicate.test (storedRow (l.values ++ r.values)) ≠ some true) := by
  obtain ⟨start, first, begins, enough, runs⟩ :=
    exists_joined_run leftRepeats rightRepeats fitsLeft fitsRight narrow evaluable
  have moved := @filter_projected_perm_iff _ ((pairs (lefts.map values) (rights.map values)).map joined)
    storedRow storedRow_storedRow fun row => predicate.test row = some true
  rw [← joinedRows_storedRow, map_map, map_map] at moved
  have unchanged : (∀ row ∈ (pairs (lefts.map values) (rights.map values)).map joined, storedRow row = row ∨
      (decide (predicate.test row = some true) = false ∧ decide (predicate.test (storedRow row) = some true) = false)) ↔
      ∀ l ∈ lefts, ∀ r ∈ rights, storedRow (l.values ++ r.values) = l.values ++ r.values ∨
        (predicate.test (l.values ++ r.values) ≠ some true ∧
          predicate.test (storedRow (l.values ++ r.values)) ≠ some true) := by
    simp only [pairs, joined, forall_mem_map, forall_mem_flatMap, decide_eq_false_iff_not, ne_eq]
  rw [← unchanged, ← moved]
  constructor
  · rintro ⟨least, correct⟩
    obtain ⟨start', out, begins', yields, rows⟩ := correct (max least (max first enough)) (le_max_left _ _)
    obtain ⟨out', yields', rows'⟩ := runs (max least (max first enough)) (by omega)
    have same := (begins _ (by omega)).symm.trans begins'
    obtain ⟨-, rfl⟩ := Prod.ext_iff.mp (Option.some.inj same)
    rw [yields.unique yields'] at rows
    exact rows'.symm.trans rows
  · intro same
    refine ⟨max first enough, fun fuel bound => ?_⟩
    obtain ⟨out, yields, rows⟩ := runs fuel (by omega)
    exact ⟨start, out, begins fuel (by omega), yields, rows.trans same⟩

section Values
variable {values : List (List PhysicalExpr)} {schema : List FieldType}

theorem valuesExecutor_runs {before rest : List (List PhysicalExpr)} {currentValues : List (Option Value)}
    {rows : List Row} (all : before ++ rest = values) (returned : valuesRows currentValues rest = some rows) :
    (valuesExecutor values schema).Runs ⟨before.length, currentValues⟩ (rows.map .fromValues) := by
  induction rest generalizing before currentValues rows with
  | nil =>
    cases returned
    have past : values[before.length]? = none := by rw [← all, append_nil, getElem?_length]
    refine .done (.of_invariant (· = ⟨before.length, currentValues⟩) (fun _ here => ⟨_, ?_, rfl, rfl⟩) rfl)
    simp [here, valuesExecutor, past]
  | cons row rest ih =>
    simp only [valuesRows, bind_eq_some, Option.pure_def, Option.some.injEq] at returned
    obtain ⟨put, evaluated, vals, filled, others, returned, rfl⟩ := returned
    have here : values[before.length]? = some row := by
      rw [← all, getElem?_append_right le_rfl, Nat.sub_self, getElem?_cons_zero]
    rw [append_cons] at all
    have next := ih all returned
    rw [length_append, length_singleton] at next
    refine .more ?_ ?_ rfl next
    · simp [valuesExecutor, here, evaluated]
    · simp [valuesExecutor, filled]

theorem valuesExecutor_repeats {rows : List Row} (returned : valuesRows (schema.map fun _ => none) values = some rows)
    (e : ValuesExecutor) : (valuesExecutor values schema).Repeats e (rows.map .fromValues) :=
  fun _ _ => ⟨_, rfl, @valuesExecutor_runs _ _ [] _ _ _ rfl returned⟩

end Values

section Constants

def constants (rows : List Row) (schema : List FieldType) : Executor ValuesExecutor :=
  valuesExecutor (rows.map (·.map .constant)) schema

theorem fits_constants {rows : List Row} {schema : List FieldType} (typed : ∀ row ∈ rows, row.map type = schema) :
    ∀ t ∈ rows.map fromValues, t.Fits schema := by
  refine forall_mem_map.mpr fun row member => ⟨typed row member, ?_⟩
  simp [fromValues]

def newJoinOfValues : BlockNestedLoopJoinExecutor ValuesExecutor ValuesExecutor :=
  ⟨⟨0, []⟩, ⟨0, []⟩, none, none, [], none, none, [], 0, false⟩

def notAbove : PhysicalExpr := .comparison 0 (.column ⟨0, .int, "a"⟩) (.column ⟨1, .int, "b"⟩) .lessThanOrEqual

def lefts : List Row := [[.int 2], [.null .int], [.int 3]]

def rights : List Row := [[.int 1], [.int 3]]

theorem numbers_joined : ∃ enough, ∀ fuel ≥ enough, ∃ start out,
    (blockNestedLoopJoinExecutor fuel (constants lefts [.int]) (constants rights [.int]) [.int] [.int] notAbove).init
      newJoinOfValues = some (none, start) ∧
    (blockNestedLoopJoinExecutor fuel (constants lefts [.int]) (constants rights [.int]) [.int] [.int] notAbove).Yields
      start out ∧ (out.map values).Perm [[.int 2, .int 3], [.int 3, .int 3]] :=
  (@block_nested_loop_join_iff _ _ _ _ _ _ _ newJoinOfValues (lefts.map fromValues) (rights.map fromValues)
    (valuesExecutor_repeats rfl _) (valuesExecutor_repeats rfl _) (fits_constants (by decide)) (fits_constants (by decide))
    (by decide) (by decide +kernel)).mpr (by decide +kernel)

/-- The smallest number has the bytes of NULL. -/
theorem smallest_int_joined_as_null : (∃ enough, ∀ fuel ≥ enough, ∃ start out,
    (blockNestedLoopJoinExecutor fuel (constants [[.int minValue]] [.int]) (constants [[.int 1]] [.int]) [.int] [.int]
      (.constant (.int 1))).init newJoinOfValues = some (none, start) ∧
    (blockNestedLoopJoinExecutor fuel (constants [[.int minValue]] [.int]) (constants [[.int 1]] [.int]) [.int] [.int]
      (.constant (.int 1))).Yields start out ∧ out.map values = [[.null .int, .int 1]]) ∧
    joinedRows (.constant (.int 1)) [[.int minValue]] [[.int 1]] = [[.int minValue, .int 1]] := by
  refine ⟨?_, rfl⟩
  obtain ⟨start, first, begins, enough, runs⟩ :=
    @exists_joined_run _ _ (constants [[.int minValue]] [.int]) (constants [[.int 1]] [.int]) [.int] [.int]
      (.constant (.int 1)) _ _ newJoinOfValues (valuesExecutor_repeats rfl _) (valuesExecutor_repeats rfl _)
      (@fits_constants [[.int minValue]] _ (by decide)) (@fits_constants [[.int 1]] _ (by decide)) (by decide)
      (fun _ _ _ _ => rfl)
  refine ⟨max first enough, fun fuel bound => ?_⟩
  obtain ⟨out, yields, rows⟩ := runs fuel (by omega)
  refine ⟨start, out, begins fuel (by omega), yields, perm_singleton.mp (rows.trans ?_)⟩
  have read : joinedRows (.constant (.int 1)) ([[.int minValue]].map fun row => storedRow row)
      ([[.int 1]].map fun row => storedRow row) = [[.null .int, .int 1]] := by
    decide +kernel
  exact .of_eq read

end Constants
end GoDB.Execution
