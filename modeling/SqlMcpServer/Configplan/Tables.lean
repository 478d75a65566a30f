import SqlMcpServer.Configplan.Plan
import Mathlib.Data.List.Infix

/-!
# Scanned tables

What was scanned of each datasource, the tables of a scope with where they stand against the
configuration, and the configured tables that are gone. An index of the tables is a cache of
`rows` without a scope, and left out.
-/

namespace SqlMcpServer.Configplan

structure Column where
  name : String
  type : String := ""
deriving DecidableEq, Repr

structure ForeignKey where
  columns : List String
  refSchema : String := ""
  refRelation : String
  refColumns : List String
deriving DecidableEq, Repr

structure Table where
  schema : String := ""
  source : String := ""
  kind : Kind := .table
  columns : List Column := []
  keys : List Key := []
  foreignKeys : List ForeignKey := []
  description : String := ""
deriving DecidableEq, Repr

namespace Table

def columnNames (t : Table) : List String := t.columns.map Column.name

def primaryKey (t : Table) : List String := ((t.keys.find? Key.primary).map Key.columns).getD []

def identityUniqueKeys (t : Table) : List (List String) :=
  (t.keys.filter fun k => ¬ k.primary ∧ k.reason = "").map Key.columns

end Table

structure Catalog where
  tables : List Table
  /-- Where an entity without a schema reads; empty when unknown. -/
  default : String := ""
  foldCase : Bool := false
  /-- Lookups go by the index of lower-cased names. -/
  indexed : Bool := true
deriving DecidableEq, Repr

def tableKey (schema table : String) : String := schema ++ "." ++ table

def Table.key (t : Table) : String := tableKey t.schema t.source

def latest {α : Type} (m : List (String × α)) (key : String) : Option α := m.reverse.lookup key

def orElse (a b : String) : String := if a = "" then b else a

namespace Catalog
variable (T : GoText) (c : Catalog)

def sameName (a b : String) : Bool := if c.foldCase then T.equalFold a b else a = b

def positions (table : String) : List Table :=
  if c.indexed then c.tables.filter fun t => T.lower t.source = T.lower table else c.tables

/-- The table named by schema (empty for the default) and table: an unqualified name must be
unique. -/
def lookup (schema table : String) : Option Table :=
  let schema := orElse schema c.default
  let named := (c.positions T table).filter fun t => c.sameName T t.source table
  if schema ≠ "" then named.find? fun t => c.sameName T t.schema schema
  else
    match named with
    | [t] => some t
    | _ => none

end Catalog

structure Source where
  datasource : String
  catalog : Catalog
  scanned : List String := []
deriving DecidableEq, Repr

def refOf (datasource schema table : String) : String := Entity.id datasource schema table

/-- A scanned table with where it stands against the configuration. -/
structure Row where
  ref : String
  datasource : String
  table : Table := {}
  status : Status
  entity : Option EntityConfig := none
  added : List String := []
  missing : List String := []

def Row.drift (r : Row) : Bool := r.added ≠ [] ∨ r.missing ≠ []

section
variable (T : GoText)

def configuredTables (datasource : String) (cat : Catalog) (cfg : Config) : List (String × EntityConfig) :=
  cfg.entities.filterMap fun e =>
    if e.datasourceName ≠ datasource ∨ e.kind = "procedure" then none
    else (cat.lookup T e.schema e.physicalSource).map fun t => (t.key, e)

def containsText (s part : String) : Bool := part.toList <:+: s.toList

def Scope.searchText (s : Scope) : String := T.lower (String.ofList (GoStrings.trimSpace s.search.toList))

def Scope.table (s : Scope) (datasource : String) (t : Table) : Bool :=
  (s.schemas = [] || (compileGlobs T s.schemas).matches T t.schema) &&
    (s.tables = [] || (compileGlobs T s.tables).matches T t.source) &&
    (s.refs = [] || s.refs.contains (refOf datasource t.schema t.source)) &&
    (s.searchText T = "" || containsText (T.lower t.source) (s.searchText T) ||
      containsText (T.lower t.description) (s.searchText T))

def Scope.entity (s : Scope) (e : Option EntityConfig) : Bool :=
  s.entities = [] || e.any fun e => s.entities.contains e.id

def Scope.row (s : Scope) (r : Row) : Bool :=
  (s.status = [] || s.status.contains r.status) && (!s.drift || r.drift) && s.entity r.entity

def Scope.datasource (s : Scope) (name : String) : Bool := s.datasources = [] || s.datasources.contains name

def addedColumns (e : EntityConfig) (t : Table) : List String := t.columnNames.filter fun c => c ∉ e.fieldNames

def missingFields (e : EntityConfig) (t : Table) : List String := e.fieldNames.filter fun f => f ∉ t.columnNames

def newRow (datasource : String) (t : Table) (inBase inPublished : List (String × EntityConfig)) : Row :=
  match latest inBase t.key with
  | none => { ref := refOf datasource t.schema t.source, datasource, table := t, status := .new }
  | some e =>
    { ref := refOf datasource t.schema t.source, datasource, table := t
      status := if (latest inPublished t.key).isSome then .published else .workspace
      entity := some e, added := addedColumns e t, missing := missingFields e t }

def Row.le (a b : Row) : Prop :=
  a.datasource < b.datasource ∨ a.datasource = b.datasource ∧
    (a.table.schema < b.table.schema ∨ a.table.schema = b.table.schema ∧ ¬ b.table.source < a.table.source)

instance : DecidableRel Row.le := fun _ _ => inferInstanceAs (Decidable (_ ∨ _))

def sourceRows (base : Config) (published : Option Config) (scope : Scope) (src : Source) : List Row :=
  if scope.datasource src.datasource then
    ((src.catalog.tables.filter (scope.table T src.datasource)).map fun t =>
      newRow src.datasource t (configuredTables T src.datasource src.catalog base)
        ((published.map (configuredTables T src.datasource src.catalog)).getD [])).filter scope.row
  else []

def rows (sources : List Source) (base : Config) (published : Option Config) (scope : Scope) : List Row :=
  (sources.flatMap (sourceRows T base published scope)).insertionSort Row.le

def scannedSchema (src : Source) (schema : String) : Bool :=
  src.scanned.any fun s => s = schema || src.catalog.foldCase && T.equalFold s schema

structure Gone where
  ref : String
  entity : String
deriving DecidableEq, Repr

def tableOf (default : Option String) (e : EntityConfig) : Table :=
  { schema := if e.schema = "" then default.getD "" else e.schema, source := e.physicalSource, description := e.description }

/-- Whether the table of an entity in scope is gone: its schema was scanned without it, or the
serving configuration found it missing. -/
def goneTable (sources : List Source) (scope : Scope) (missing : List String) (e : EntityConfig) : Option Gone :=
  let src := (sources.reverse.find? fun s => s.datasource = e.datasourceName)
  let table := tableOf (src.map fun s => s.catalog.default) e
  if e.kind = "procedure" ∨ ¬ scope.datasource e.datasourceName ∨ ¬ scope.entity (some e) ∨
      ¬ scope.table T e.datasourceName table then none
  else
    let scanned := src.any fun s =>
      table.schema ≠ "" && scannedSchema T s table.schema && (s.catalog.lookup T e.schema e.physicalSource).isNone
    if scanned ∨ e.id ∈ missing then some ⟨refOf e.datasourceName table.schema table.source, e.id⟩ else none

def goneTables (sources : List Source) (base : Config) (scope : Scope) (missing : List String) : List Gone :=
  (base.entities.filterMap (goneTable T sources scope missing)).insertionSort fun a b => ¬ b.entity < a.entity

end

end SqlMcpServer.Configplan
