import GoDB.Catalog.Tables
import GoDB.Common.Errors
import GoDB.Lib.FileSystem
import GoDB.Lib.GoMap

/-! The catalog with its lookup maps and the place where it is kept. A pointer to a
table is its place in the list of tables, which only grows. -/

namespace GoDB.Catalog
open Common Lib

/-- An index with all its fields. The type is not checked. -/
structure CatalogIndex where
  oid : ObjectID
  tableOid : ObjectID
  name : String
  type : String
  keySchema : List String
deriving DecidableEq

structure CatalogTable where
  oid : ObjectID
  name : String
  columns : List Column
  indexes : List CatalogIndex
deriving DecidableEq

structure CatalogState where
  nextId : Nat
  tables : List CatalogTable
deriving DecidableEq

/-- `encoding/json` on the state of a catalog. Nothing is lost in it. -/
structure Json where
  marshal : CatalogState → String
  unmarshal : String → Option CatalogState
  lossless : ∀ state, unmarshal (marshal state) = some state

/-- What keeps the text of the catalog; it may change while it saves. -/
structure PersistenceProvider (σ : Type) where
  loadCatalogState : σ → Except FileError String
  saveCatalogState : σ → String → Except FileError Unit × σ

def nullPersistenceProvider : PersistenceProvider Unit := ⟨fun _ => .error .notExist, fun _ _ => (.ok (), ())⟩

/-- `DiskCatalogManager`. The temporary path is `filepath.Join(path, ".tmp")`. -/
def diskCatalogManager (path : Path) : PersistenceProvider FileSystem where
  loadCatalogState fs := fs.readFile path
  saveCatalogState fs jsonData :=
    let tmpPath := path ++ [".tmp"]
    match fs.writeFile tmpPath jsonData with
    | .error err => (.error err, fs)
    | .ok written =>
      match written.rename tmpPath path with
      | .error err => (.error err, written)
      | .ok renamed => (.ok (), renamed)

inductive CatalogError where
  | godb (err : GoDBError)
  | file (err : FileError)
  | parse
deriving DecidableEq

structure SystemCatalog extends CatalogState where
  tableMap : GoMap String Nat
  columnMap : GoMap String (List Nat)

namespace SystemCatalog

def empty : SystemCatalog := ⟨⟨0, []⟩, ∅, ∅⟩

def enterColumns (columnMap : GoMap String (List Nat)) (place : Nat) (columns : List Column) : GoMap String (List Nat) :=
  columns.foldl (fun columnMap f => columnMap.insert f.name ((columnMap.lookup f.name).getD [] ++ [place])) columnMap

variable (c : SystemCatalog)

/-- One turn of the loop of `fromJSON`. -/
def enterTable (entry : CatalogTable × Nat) : SystemCatalog :=
  { c with
    tableMap := c.tableMap.insert entry.1.name entry.2
    columnMap := enterColumns c.columnMap entry.2 entry.1.columns }

def ofState (state : CatalogState) : SystemCatalog :=
  state.tables.zipIdx.foldl enterTable { empty with toCatalogState := state }

variable {σ : Type}

def newCatalog (json : Json) (provider : PersistenceProvider σ) (store : σ) : Except CatalogError SystemCatalog :=
  match provider.loadCatalogState store with
  | .error .notExist => .ok empty
  | .error err => .error (.file err)
  | .ok jsonData =>
    match json.unmarshal jsonData with
    | none => .error .parse
    | some state => .ok (ofState state)

def getTableMetadata (tableName : String) : Except GoDBError CatalogTable :=
  match (c.tableMap.lookup tableName).bind (c.tables[·]?) with
  | some table => .ok table
  | none => .error ⟨.noSuchObjectError, s!"table '{tableName}' does not exist"⟩

def getTableByOid (tableOid : ObjectID) : Except GoDBError CatalogTable :=
  match c.tables.find? (·.oid = tableOid) with
  | some table => .ok table
  | none => .error ⟨.noSuchObjectError, s!"table with OID '{tableOid}' does not exist"⟩

def getIndexByOid (indexOid : ObjectID) : Except GoDBError CatalogIndex :=
  match (c.tables.flatMap (·.indexes)).find? (·.oid = indexOid) with
  | some index => .ok index
  | none => .error ⟨.noSuchObjectError, s!"index with OID '{indexOid}' does not exist"⟩

def findTablesWithColumnName (columnName : String) : List CatalogTable :=
  ((c.columnMap.lookup columnName).getD []).filterMap (c.tables[·]?)

inductive CatalogCall where
  | addTable (tableName : String) (columns : List Column)
  | addIndex (indexName tableName indexType : String) (columnNames : List String)
deriving DecidableEq

def check : CatalogCall → Except GoDBError Unit
  | .addTable tableName _ =>
    if (c.tableMap.lookup tableName).isSome then
      .error ⟨.duplicateObjectError, s!"table '{tableName}' already exists"⟩
    else .ok ()
  | .addIndex indexName tableName _ columnNames => do
    let table ← c.getTableMetadata tableName
    if table.indexes.any (·.name = indexName) then
      throw ⟨.duplicateObjectError, s!"indexing '{indexName}' already exists on table '{tableName}'"⟩
    match columnNames.find? fun colName => !table.columns.any (·.name = colName) with
    | some colName => throw ⟨.noSuchObjectError, s!"column '{colName}' does not exist in table '{tableName}'"⟩
    | none => return ()

/-- The next id; it has 32 bits. -/
def newId : ObjectID := (c.nextId + 1) % 2 ^ 32

def change : CatalogCall → SystemCatalog
  | .addTable tableName columns =>
    let t : CatalogTable := ⟨c.newId, tableName, columns, []⟩
    enterTable { c with nextId := c.newId, tables := c.tables ++ [t] } (t, c.tables.length)
  | .addIndex indexName tableName indexType columnNames =>
    { c with
      nextId := c.newId
      tables := match c.tableMap.lookup tableName with
        | none => c.tables
        | some place => c.tables.modify place fun table =>
            { table with indexes := table.indexes ++ [⟨c.newId, table.oid, indexName, indexType, columnNames⟩] } }

/-- `AddTable` and `AddIndex`: the checks, the change, and writing out the result. The
change stays when it cannot be written. -/
def call (json : Json) (provider : PersistenceProvider σ) (c : SystemCatalog) (store : σ)
    (request : CatalogCall) : Except CatalogError Unit × SystemCatalog × σ :=
  match c.check request with
  | .error err => (.error (.godb err), c, store)
  | .ok () =>
    let c := c.change request
    let (saved, store) := provider.saveCatalogState store (json.marshal c.toCatalogState)
    (saved.mapError .file, c, store)

def calls (json : Json) (provider : PersistenceProvider σ) (c : SystemCatalog) (store : σ) :
    List CatalogCall → SystemCatalog × σ
  | [] => (c, store)
  | request :: rest =>
    let (_, c, store) := c.call json provider store request
    c.calls json provider store rest

end SystemCatalog
end GoDB.Catalog
