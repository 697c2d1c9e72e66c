import GoDB.Catalog.SystemCatalog
import Mathlib.Logic.Equiv.List
import Mathlib.Tactic.DeriveEncodable

/-! A catalog that is written out after each change and read again. -/

namespace GoDB.Catalog.SystemCatalog
open Common Lib List FileSystem Option Nat

variable {c : SystemCatalog} {json : Json} {σ : Type} {provider : PersistenceProvider σ} {store : σ}

def withState (c : SystemCatalog) (state : CatalogState) : SystemCatalog := ⟨state, c.tableMap, c.columnMap⟩

theorem foldl_enterTable (entries : List (CatalogTable × Nat)) (c : SystemCatalog) (state : CatalogState) :
    entries.foldl enterTable (c.withState state) = (entries.foldl enterTable c).withState state := by
  induction entries generalizing c with
  | nil => rfl
  | cons entry rest ih => exact ih (c.enterTable entry)

theorem ofState_eq (state : CatalogState) : ofState state = (state.tables.zipIdx.foldl enterTable empty).withState state :=
  foldl_enterTable state.tables.zipIdx empty state

def Indexed (c : SystemCatalog) : Prop := ofState c.toCatalogState = c

theorem indexed_ofState (state : CatalogState) : (ofState state).Indexed := by
  have kept : (ofState state).toCatalogState = state := by rw [ofState_eq]; rfl
  rw [Indexed, kept]

theorem foldl_enterTable_congr {tables others : List CatalogTable}
    (same : tables.map (fun table => (table.name, table.columns)) = others.map fun table => (table.name, table.columns))
    (i : Nat) (c : SystemCatalog) : (tables.zipIdx i).foldl enterTable c = (others.zipIdx i).foldl enterTable c := by
  induction tables generalizing others i c with
  | nil =>
    cases others with
    | nil => rfl
    | cons => cases same
  | cons table rest ih =>
    cases others with
    | nil => cases same
    | cons other others =>
      simp only [map_cons, cons.injEq, Prod.mk.injEq] at same
      simp [ih same.2, enterTable, same.1.1, same.1.2]

theorem Indexed.change (indexed : c.Indexed) (request : CatalogCall) : (c.change request).Indexed := by
  have maps := (ofState_eq c.toCatalogState).symm.trans indexed
  cases request with
  | addTable tableName columns =>
    rw [Indexed, ofState_eq]
    simp only [SystemCatalog.change, enterTable, zipIdx_append, foldl_append, zero_add]
    rw [← maps]
    rfl
  | addIndex indexName tableName indexType columnNames =>
    have names : (c.change (.addIndex indexName tableName indexType columnNames)).tables.map
        (fun table => (table.name, table.columns)) = c.tables.map fun table => (table.name, table.columns) := by
      simp only [SystemCatalog.change]
      split
      next => rfl
      next place _ =>
        apply ext_getElem?
        intro i
        simp only [getElem?_map, getElem?_modify]
        cases c.tables[i]? with
        | none => rfl
        | some table => split <;> rfl
    rw [Indexed, ofState_eq, foldl_enterTable_congr names]
    have tableMap := congrArg tableMap maps
    have columnMap := congrArg columnMap maps
    simp only [withState] at tableMap columnMap ⊢
    rw [tableMap, columnMap]
    rfl

theorem indexed_of_newCatalog (opened : newCatalog json provider store = .ok c) : c.Indexed := by
  unfold newCatalog at opened
  split at opened
  next =>
    cases opened
    rfl
  next => cases opened
  next =>
    split at opened
    next => cases opened
    next state _ =>
      cases opened
      exact indexed_ofState state

def oids (c : SystemCatalog) : List ObjectID := c.tables.map (·.oid) ++ (c.tables.flatMap (·.indexes)).map (·.oid)

def Counted (c : SystemCatalog) : Prop := ∀ oid ∈ c.oids, oid ≤ c.nextId

theorem Counted.newId_not_mem (counted : c.Counted) (room : c.nextId + 1 < 2 ^ 32) : c.newId ∉ c.oids := by
  intro given
  have below := counted _ given
  rw [newId, mod_eq_of_lt room] at below
  exact not_succ_le_self _ below

theorem oids_change {oid : ObjectID} (request : CatalogCall) (given : oid ∈ (c.change request).oids) :
    oid = c.newId ∨ oid ∈ c.oids := by
  cases request with
  | addTable tableName columns =>
    simp only [SystemCatalog.change, enterTable, oids, map_append, flatMap_append, map_cons, map_nil,
      flatMap_cons, flatMap_nil, append_nil, mem_append, mem_singleton] at given ⊢
    tauto
  | addIndex indexName tableName indexType columnNames =>
    simp only [SystemCatalog.change, oids] at given
    split at given
    next => exact .inr given
    next place _ =>
      rcases mem_append.mp given with table | index
      · refine .inr (mem_append_left _ ?_)
        obtain ⟨changed, inside, rfl⟩ := mem_map.mp table
        obtain ⟨i, found⟩ := mem_iff_getElem?.mp inside
        rw [getElem?_modify] at found
        obtain ⟨original, there, same⟩ := map_eq_some_iff.mp found
        refine mem_map.mpr ⟨original, mem_of_getElem? there, ?_⟩
        rw [← same]
        split <;> rfl
      · obtain ⟨listed, inside, rfl⟩ := mem_map.mp index
        obtain ⟨changed, member, within⟩ := mem_flatMap.mp inside
        obtain ⟨i, found⟩ := mem_iff_getElem?.mp member
        rw [getElem?_modify] at found
        obtain ⟨original, there, same⟩ := map_eq_some_iff.mp found
        have old : listed ∈ original.indexes → listed.oid ∈ c.oids := fun member => mem_append_right _
          (mem_map_of_mem (mem_flatMap.mpr ⟨original, mem_of_getElem? there, member⟩))
        rw [← same] at within
        split at within
        next =>
          rcases mem_append.mp within with before | new
          · exact .inr (old before)
          · rw [mem_singleton.mp new]
            exact .inl rfl
        next => exact .inr (old within)

theorem nextId_change (c : SystemCatalog) (request : CatalogCall) : (c.change request).nextId = c.newId := by
  cases request <;> rfl

theorem Counted.change (counted : c.Counted) (room : c.nextId + 1 < 2 ^ 32) (request : CatalogCall) :
    (c.change request).Counted := by
  intro oid given
  rw [nextId_change]
  rcases oids_change request given with rfl | before
  · exact le_refl _
  · have below := counted oid before
    rw [newId, mod_eq_of_lt room]
    exact le_succ_of_le below

/-- Every call that passes its checks returns no error. -/
def AllSaved (json : Json) (provider : PersistenceProvider σ) : SystemCatalog → σ → List CatalogCall → Prop
  | _, _, [] => True
  | c, store, request :: rest =>
    let (result, later, store) := c.call json provider store request
    (c.check request = .ok () → result = .ok ()) ∧ AllSaved json provider later store rest

/-- Besides, the catalog that is opened again is the same, and its next id is a new one
if the ids were counted up before and the counter does not start again. -/
structure Persists (json : Json) (provider : PersistenceProvider σ) (store : σ) (c : SystemCatalog)
    (requests : List CatalogCall) : Prop where
  saved : AllSaved json provider c store requests
  reopened : newCatalog json provider (c.calls json provider store requests).2 =
    .ok (c.calls json provider store requests).1
  fresh : c.Counted → c.nextId + requests.length + 1 < 2 ^ 32 →
    (c.calls json provider store requests).1.newId ∉ (c.calls json provider store requests).1.oids

variable {request : CatalogCall}

theorem call_of_refused {err : GoDBError} (refused : c.check request = .error err) :
    c.call json provider store request = (.error (.godb err), c, store) := by
  simp [call, refused]

theorem call_of_passed (passed : c.check request = .ok ()) : c.call json provider store request =
      ((provider.saveCatalogState store (json.marshal (c.change request).toCatalogState)).1.mapError .file,
        c.change request, (provider.saveCatalogState store (json.marshal (c.change request).toCatalogState)).2) := by
  simp [call, passed]

/-- What is saved is there afterwards. -/
structure Reliable (provider : PersistenceProvider σ) : Prop where
  saves : ∀ store text, (provider.saveCatalogState store text).1 = .ok ()
  loads : ∀ store text, provider.loadCatalogState (provider.saveCatalogState store text).2 = .ok text

theorem reopened_of_saved (reliable : Reliable provider) (indexed : c.Indexed) :
    newCatalog json provider (provider.saveCatalogState store (json.marshal c.toCatalogState)).2 = .ok c := by
  simp only [newCatalog, reliable.loads, json.lossless]
  exact congrArg Except.ok indexed

theorem persists_of_reliable (reliable : Reliable provider) (opened : newCatalog json provider store = .ok c)
    (requests : List CatalogCall) : Persists json provider store c requests := by
  induction requests generalizing c store with
  | nil => exact ⟨trivial, opened, fun counted room => counted.newId_not_mem (by simpa using room)⟩
  | cons request rest ih =>
    cases checked : c.check request with
    | error err =>
      have same := @call_of_refused c json σ provider store request err checked
      obtain ⟨saved, reopened, fresh⟩ := ih opened
      refine ⟨?_, ?_, ?_⟩
      · simp only [AllSaved, same, checked]
        exact ⟨nofun, saved⟩
      · simpa only [calls, same] using reopened
      · simp only [calls, same, length_cons]
        exact fun counted room => fresh counted (by omega)
    | ok =>
      have result := @call_of_passed c json σ provider store request checked
      have indexed := (indexed_of_newCatalog opened).change request
      obtain ⟨saved, reopened, fresh⟩ := ih (reopened_of_saved reliable indexed)
      refine ⟨?_, ?_, ?_⟩
      · simp only [AllSaved, result, reliable.saves]
        exact ⟨fun _ => rfl, saved⟩
      · simpa only [calls, result] using reopened
      · simp only [calls, result, length_cons]
        intro counted room
        have bound : c.nextId + 1 < 2 ^ 32 := by omega
        refine fresh (counted.change bound request) ?_
        rw [nextId_change, newId, mod_eq_of_lt bound]
        omega

def Placed (c : SystemCatalog) : Prop :=
  ∀ name place, c.tableMap.lookup name = some place ↔ ∃ table, c.tables[place]? = some table ∧ table.name = name

theorem Placed.change (placed : c.Placed) (passed : c.check request = .ok ()) : (c.change request).Placed := by
  intro name place
  cases request with
  | addTable tableName columns =>
    have absent : c.tableMap.lookup tableName = none := by
      simp only [check] at passed
      split at passed
      next => cases passed
      next absent => exact not_isSome_iff_eq_none.mp absent
    simp only [SystemCatalog.change, enterTable, getElem?_append]
    by_cases same : name = tableName
    · subst same
      rw [AList.lookup_insert]
      constructor
      · rintro ⟨⟩
        exact ⟨⟨c.newId, name, columns, []⟩, by simp, rfl⟩
      · rintro ⟨table, found, named⟩
        split at found
        next => simpa [absent] using (placed name place).mpr ⟨table, found, named⟩
        next => grind
    · rw [AList.lookup_insert_ne same, placed]
      grind
  | addIndex indexName tableName indexType columnNames =>
    simp only [SystemCatalog.change]
    rw [placed]
    split
    next => rfl
    next other _ =>
      rw [getElem?_modify]
      grind

/-- Whatever is added, and whether it can be saved or not, no two tables have one name, and the
table of a name is found under it. -/
theorem tables_found_by_name (json : Json) (provider : PersistenceProvider σ) (store : σ) (requests : List CatalogCall) :
    ((empty.calls json provider store requests).1.tables.map (·.name)).Nodup ∧
      ∀ name table, (empty.calls json provider store requests).1.getTableMetadata name = .ok table ↔
        table ∈ (empty.calls json provider store requests).1.tables ∧ table.name = name := by
  have placed : ∀ c : SystemCatalog, c.Placed → (c.calls json provider store requests).1.Placed := by
    induction requests generalizing store with
    | nil => exact fun _ placed => placed
    | cons request rest ih =>
      intro c placed
      simp only [calls]
      cases checked : c.check request with
      | error err =>
        rw [call_of_refused checked]
        exact ih store c placed
      | ok =>
        rw [call_of_passed checked]
        exact ih _ _ (placed.change checked)
  replace placed := placed empty fun name place => by simp [empty]
  generalize (empty.calls json provider store requests).1 = c at placed
  refine ⟨nodup_iff_getElem?_ne_getElem?.mpr fun first second before inside same => ?_, fun name table => ⟨?_, ?_⟩⟩
  · have found := getElem?_eq_getElem inside
    obtain ⟨one, here, named⟩ := map_eq_some_iff.mp ((getElem?_map ..).symm.trans found)
    obtain ⟨other, there, named'⟩ := map_eq_some_iff.mp ((getElem?_map ..).symm.trans (same.trans found))
    cases ((placed _ second).mpr ⟨one, here, named⟩).symm.trans ((placed _ first).mpr ⟨other, there, named'⟩)
    exact lt_irrefl _ before
  · intro result
    unfold getTableMetadata at result
    split at result
    next found =>
      cases result
      obtain ⟨place, listed, there⟩ := bind_eq_some_iff.mp found
      obtain ⟨other, there', named⟩ := (placed name place).mp listed
      cases there.symm.trans there'
      exact ⟨mem_of_getElem? there, named⟩
    next => cases result
  · rintro ⟨member, rfl⟩
    obtain ⟨place, there⟩ := mem_iff_getElem?.mp member
    simp [getTableMetadata, (placed _ place).mpr ⟨table, there, rfl⟩, there]

/-- The provider on disk never saves: the temporary file would have to stand in the file
of the catalog itself. -/
theorem disk_refuses {path : Path} {fs : FileSystem} (opened : newCatalog json (diskCatalogManager path) fs = .ok c)
    (text : String) : ∃ err, (diskCatalogManager path).saveCatalogState fs text = (.error err, fs) := by
  have plain : fs.node path ≠ some .directory := by
    intro directory
    simp [newCatalog, diskCatalogManager, readFile, directory] at opened
  have refused : ¬ fs.Takes (path ++ [".tmp"]) := by
    rintro ⟨-, -, inside⟩
    exact plain (by simpa using inside)
  exact ⟨fs.refusal (path ++ [".tmp"]), by simp only [diskCatalogManager, writeFile, dif_neg refused]⟩

/-- The catalog on disk persists exactly as long as no call passes its checks. -/
theorem disk_catalog_persists_iff {path : Path} {fs : FileSystem}
    (opened : newCatalog json (diskCatalogManager path) fs = .ok c) (requests : List CatalogCall) :
    Persists json (diskCatalogManager path) fs c requests ↔ ∀ request ∈ requests, c.check request ≠ .ok () := by
  constructor
  · intro persists
    have saved := persists.saved
    clear persists
    induction requests with
    | nil => exact forall_mem_nil _
    | cons request rest ih =>
      cases checked : c.check request with
      | ok =>
        obtain ⟨err, refused⟩ := disk_refuses opened (json.marshal (c.change request).toCatalogState)
        simp only [AllSaved, call_of_passed checked, refused] at saved
        cases saved.1 checked
      | error err =>
        simp only [AllSaved, call_of_refused checked] at saved
        exact forall_mem_cons.mpr ⟨by rw [checked]; exact nofun, ih saved.2⟩
  · intro refused
    have unchanged : c.calls json (diskCatalogManager path) fs requests = (c, fs) ∧
        AllSaved json (diskCatalogManager path) c fs requests := by
      induction requests with
      | nil => exact ⟨rfl, trivial⟩
      | cons request rest ih =>
        obtain ⟨first, others⟩ := forall_mem_cons.mp refused
        cases checked : c.check request with
        | ok => exact absurd checked first
        | error err =>
          have same := @call_of_refused c json _ (diskCatalogManager path) fs request err checked
          simp only [calls, AllSaved, same, checked]
          exact ⟨(ih others).1, nofun, (ih others).2⟩
    obtain ⟨stays, saved⟩ := unchanged
    refine ⟨saved, by rw [stays]; exact opened, ?_⟩
    rw [stays]
    exact fun counted room => counted.newId_not_mem (by omega)

structure SameAnswers (c later : SystemCatalog) : Prop where
  byName : ∀ tableName, later.getTableMetadata tableName = c.getTableMetadata tableName
  byOid : ∀ tableOid, later.getTableByOid tableOid = c.getTableByOid tableOid
  indexes : ∀ indexOid, later.getIndexByOid indexOid = c.getIndexByOid indexOid
  columns : ∀ columnName, later.findTablesWithColumnName columnName = c.findTablesWithColumnName columnName

/-- A call that failed leaves no trace, and where saving failed the same call succeeds as soon as saving does. -/
structure Recovers (json : Json) (c later : SystemCatalog) (request : CatalogCall) (err : CatalogError) : Prop where
  answers : SameAnswers c later
  retried : ∀ fault, err = .file fault → ∀ (σ : Type) (provider : PersistenceProvider σ) (store : σ),
    (∀ text, (provider.saveCatalogState store text).1 = .ok ()) → (later.call json provider store request).1 = .ok ()

theorem change_seen (passed : c.check request = .ok ()) :
    ∃ tableName, (c.change request).getTableMetadata tableName ≠ c.getTableMetadata tableName := by
  cases request with
  | addTable tableName columns =>
    refine ⟨tableName, ?_⟩
    simp only [check] at passed
    split at passed
    next => cases passed
    next absent =>
      rw [not_isSome_iff_eq_none] at absent
      simp [getTableMetadata, change, enterTable, absent]
  | addIndex indexName tableName indexType columnNames =>
    refine ⟨tableName, ?_⟩
    cases found : c.getTableMetadata tableName with
    | error =>
      rw [check, found] at passed
      cases passed
    | ok table =>
      unfold getTableMetadata at found
      split at found
      next there =>
        cases found
        obtain ⟨place, listed, located⟩ := bind_eq_some_iff.mp there
        simp only [getTableMetadata, change, listed, located, Option.bind_some, getElem?_modify, Option.map_eq_map,
          Option.map_some, if_true, ne_eq, Except.ok.injEq]
        exact fun same => absurd (congrArg (·.indexes.length) same) (by simp)
      next => cases found

/-- A call that returns an error recovers exactly if it was refused by a check of its own. -/
theorem failed_call_recovers_iff {request : CatalogCall} {err : CatalogError}
    (failed : (c.call json provider store request).1 = .error err) :
    Recovers json c (c.call json provider store request).2.1 request err ↔ c.check request ≠ .ok () := by
  constructor
  · intro recovers passed
    obtain ⟨tableName, seen⟩ := change_seen passed
    rw [call_of_passed passed] at recovers
    exact seen (recovers.answers.byName tableName)
  · intro refused
    cases checked : c.check request with
    | ok => exact absurd checked refused
    | error =>
      rw [call_of_refused checked] at failed ⊢
      cases failed
      exact ⟨⟨fun _ => rfl, fun _ => rfl, fun _ => rfl, fun _ => rfl⟩, nofun⟩

section Sample

instance : Encodable String :=
  .ofLeftInverse (fun text => text.toList.map Char.toNat) (fun codes => String.ofList (codes.map Char.ofNat)) fun text => by
    simp [Function.comp_def]

deriving instance Encodable for FieldType, Column, CatalogIndex, CatalogTable, CatalogState

/-- The number of a state, written as that many digits. -/
@[irreducible]
def unaryJson : Json where
  marshal state := String.ofList (replicate (Encodable.encode state) '1')
  unmarshal text := Encodable.decode text.length
  lossless state := by rw [String.length_ofList, length_replicate, Encodable.encodek]

def indexed : SystemCatalog := (empty.change (.addTable "t" [⟨"a", .int⟩])).change (.addIndex "i" "t" "hash" ["a"])

def directory (text : Option String) : FileSystem where
  node path := if path = [] then some .directory else if path = ["catalog.json"] then text.map .file else none
  parents dir name present := by
    cases dir with
    | nil => rfl
    | cons => simp at present

theorem opened_file (json : Json) (state : CatalogState) :
    newCatalog json (diskCatalogManager ["catalog.json"]) (directory (some (json.marshal state))) = .ok (ofState state) := by
  simp [newCatalog, diskCatalogManager, readFile, directory, json.lossless]

theorem refused_requests_persist : Persists unaryJson (diskCatalogManager ["catalog.json"])
    (directory (some (unaryJson.marshal indexed.toCatalogState))) indexed
    [.addTable "t" [], .addIndex "i" "t" "btree" ["a"], .addIndex "j" "t" "hash" ["b"]] := by
  have new : empty.Indexed := rfl
  have again : indexed.Indexed := (new.change _).change _
  have opened := (opened_file unaryJson indexed.toCatalogState).trans (congrArg Except.ok again)
  exact (disk_catalog_persists_iff opened _).mpr (by decide)

/-- The first table of a new catalog: the call passes its check and returns an error, and
the catalog that is opened again does not have the table. -/
theorem first_table_not_saved : ∃ later,
    newCatalog unaryJson (diskCatalogManager ["catalog.json"]) (directory none) = .ok empty ∧
    empty.check (.addTable "t" [⟨"a", .int⟩]) = .ok () ∧
    empty.call unaryJson (diskCatalogManager ["catalog.json"]) (directory none) (.addTable "t" [⟨"a", .int⟩]) =
      (.error (.file .notExist), later, directory none) ∧
    later.getTableMetadata "t" = .ok ⟨1, "t", [⟨"a", .int⟩], []⟩ := by
  have passed : empty.check (.addTable "t" [⟨"a", .int⟩]) = .ok () := by decide
  have opened : newCatalog unaryJson (diskCatalogManager ["catalog.json"]) (directory none) = .ok empty := by
    simp [newCatalog, diskCatalogManager, readFile, missing, directory]
  have refused : ∀ text, (diskCatalogManager ["catalog.json"]).saveCatalogState (directory none) text =
      (.error .notExist, directory none) := by
    intro text
    simp [diskCatalogManager, writeFile, FileSystem.Takes, refusal, missing, directory]
  refine ⟨empty.change (.addTable "t" [⟨"a", .int⟩]), opened, passed, ?_, by decide⟩
  rw [call_of_passed passed, refused]
  rfl

def remembering : PersistenceProvider (Option String) where
  loadCatalogState
    | some text => .ok text
    | none => .error .notExist
  saveCatalogState _ text := (.ok (), some text)

theorem remembered_catalog_persists : Reliable remembering ∧ newCatalog unaryJson remembering none = .ok empty ∧
    Persists unaryJson remembering none empty [.addTable "t" [⟨"a", .int⟩], .addIndex "i" "t" "hash" ["a"]] := by
  have reliable : Reliable remembering := ⟨fun _ _ => rfl, fun _ _ => rfl⟩
  exact ⟨reliable, rfl, persists_of_reliable reliable rfl _⟩

theorem refused_index_recovers : ∃ err,
    (indexed.call unaryJson nullPersistenceProvider () (.addIndex "j" "t" "hash" ["b"])).1 = .error err ∧
    Recovers unaryJson indexed (indexed.call unaryJson nullPersistenceProvider () (.addIndex "j" "t" "hash" ["b"])).2.1
      (.addIndex "j" "t" "hash" ["b"]) err :=
  ⟨_, rfl, (failed_call_recovers_iff rfl).mpr (by decide)⟩

/-- A table that could not be saved is found afterwards, and adding it again is refused. -/
theorem unsaved_table_stays : ∃ later,
    empty.call unaryJson ⟨fun _ => .error .notExist, fun _ _ => (.error .notExist, ())⟩ () (.addTable "t" []) =
      (.error (.file .notExist), later, ()) ∧
    empty.getTableMetadata "t" = .error ⟨.noSuchObjectError, "table 't' does not exist"⟩ ∧
    later.getTableMetadata "t" = .ok ⟨1, "t", [], []⟩ ∧
    (later.call unaryJson nullPersistenceProvider () (.addTable "t" [])).1 =
      .error (.godb ⟨.duplicateObjectError, "table 't' already exists"⟩) :=
  ⟨_, rfl, by decide, by decide, rfl⟩

end Sample
end GoDB.Catalog.SystemCatalog
