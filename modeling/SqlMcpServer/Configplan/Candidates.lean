import SqlMcpServer.Configplan.Tables
import SqlMcpServer.Lib.Keyed

/-!
# Entities proposed for tables

Each scanned table gets a candidate: an entity with every column, named like the table and
numbered where the name is in use, with a relationship per foreign key in both directions.
-/

namespace SqlMcpServer.Configplan

structure Candidate where
  table : Table
  entity : EntityConfig
  /-- The configured entity's ID when the table is configured. -/
  id : String

/-- Names the entity of a table; `fields` are those of a configured one, none a candidate's
(every column). -/
structure CandidateName where
  name : String
  id : String
  fields : Option (List String) := none
deriving DecidableEq, Repr

def configuredName (e : EntityConfig) : CandidateName := ⟨e.name, e.id, some e.fieldNames⟩

def CandidateName.has (n : CandidateName) (columns : List String) : Bool :=
  n.fields.all fun fields => columns.all fields.contains

def numbered (base : String) (used : String → Bool) : Nat → Nat → String
  | 0, n => base ++ "_" ++ toString n
  | fuel + 1, n => if used (base ++ "_" ++ toString n) then numbered base used fuel (n + 1) else base ++ "_" ++ toString n

def unusedName (base : String) (used : String → Bool) (size : Nat) : String :=
  if used base then numbered base used size 2 else base

/-- The state of the naming loops: the names chosen by table key, and the names in use. -/
structure NamesChosen where
  chosen : List (String × CandidateName) := []
  used : List String

namespace NamesChosen

def nextName (datasource : String) (preferred : String) (s : NamesChosen) (t : Table) : NamesChosen :=
  let name := unusedName (orElse preferred t.source) (fun n => s.used.contains (tableKey t.schema n)) s.used.length
  ⟨s.chosen ++ [(t.key, ⟨name, Entity.id datasource t.schema name, none⟩)], s.used ++ [tableKey t.schema name]⟩

def pass (datasource : String) (preferred : List (String × String)) (withPreferred : Bool) (s : NamesChosen) (t : Table) : NamesChosen :=
  if (latest s.chosen t.key).isSome ∨ (latest preferred t.key).isSome ≠ withPreferred then s
  else s.nextName datasource ((latest preferred t.key).getD "") t

end NamesChosen

/-- The names of the candidates: preferred names go first, so numbering moves other tables
aside. -/
def candidateNames (datasource : String) (tables : List Table) (configured : List (String × EntityConfig))
    (taken : List String) (preferred : List (String × String)) : List (String × CandidateName) :=
  let named : NamesChosen :=
    ⟨tables.filterMap fun t => (latest configured t.key).map fun e => (t.key, configuredName e), taken⟩
  let first := tables.foldl (NamesChosen.pass datasource preferred true) named
  (tables.foldl (NamesChosen.pass datasource preferred false) first).chosen

/-- Whether a name is one the SQL gives its tables: `_` or `x` and a number. -/
def relationshipNameReserved (name : String) : Bool :=
  match name.toList with
  | ['_'] => true
  | 'x' :: digits => digits ≠ [] ∧ digits.all Char.isDigit
  | _ => false

def uniqueRelationshipName (existing : List RelationshipConfig) (base : String) : String :=
  let base := if relationshipNameReserved base then "to_" ++ base else base
  unusedName base (fun n => existing.any fun r => r.name = n) existing.length

def tableName (names : List (String × CandidateName)) (t : Table) (fk : ForeignKey) : Option CandidateName :=
  latest names (tableKey (orElse fk.refSchema t.schema) fk.refRelation)

def belongsTo (names : List (String × CandidateName)) (t : Table) (rels : List RelationshipConfig) (fk : ForeignKey) :
    List RelationshipConfig :=
  match tableName names t fk with
  | none => rels
  | some target =>
    if target.has fk.refColumns then
      rels ++ [⟨uniqueRelationshipName rels target.name, target.id, "belongs-to", fk.columns.zip fk.refColumns⟩]
    else rels

def kindName : Kind → String
  | .view => "view"
  | _ => ""

def candidateEntity (datasource : String) (t : Table) (names : List (String × CandidateName)) : EntityConfig :=
  { name := ((latest names t.key).map CandidateName.name).getD "", dataSource := datasource, schema := t.schema
    source := t.source, kind := kindName t.kind, primaryKey := t.primaryKey, uniqueKeys := t.identityUniqueKeys
    fields := t.columnNames.map fun c => { name := c }
    relationships := t.foreignKeys.foldl (belongsTo names t) [] }

def hasMany (names : List (String × CandidateName)) (child : CandidateName) (t : Table) (cs : List Candidate) (fk : ForeignKey) :
    List Candidate :=
  match tableName names t fk with
  | none => cs
  | some target =>
    if child.has fk.columns then
      Keyed.updateLast Candidate.id target.id (fun c =>
        { c with entity := { c.entity with relationships := c.entity.relationships ++
          [⟨uniqueRelationshipName c.entity.relationships child.name, child.id, "has-many", fk.refColumns.zip fk.columns⟩] } }) cs
    else cs

def addReverseRelationships (cs : List Candidate) (tables : List Table) (names : List (String × CandidateName)) : List Candidate :=
  tables.foldl (fun cs t => t.foreignKeys.foldl (hasMany names ((latest names t.key).getD ⟨"", "", none⟩) t) cs) cs

section
variable (T : GoText)

/-- The names of the entities of every table, those of schemas not scanned included when an
entity is configured on them. -/
def chosenNames (datasource : String) (cat : Catalog) (cfg : Config) (preferred : List (String × String)) :
    List (String × CandidateName) :=
  let mine := cfg.entities.filter fun e => e.datasourceName = datasource
  let chosen := candidateNames datasource cat.tables (configuredTables T datasource cat cfg)
    (mine.map fun e => tableKey (orElse e.schema cat.default) e.name) preferred
  mine.foldl (fun chosen e =>
    let key := tableKey (orElse e.schema cat.default) e.physicalSource
    if (latest chosen key).isNone ∧ e.kind ≠ "procedure" then chosen ++ [(key, configuredName e)] else chosen) chosen

def Candidate.le (a b : Candidate) : Prop :=
  a.table.schema < b.table.schema ∨ a.table.schema = b.table.schema ∧ ¬ b.table.source < a.table.source

instance : DecidableRel Candidate.le := fun _ _ => inferInstanceAs (Decidable (_ ∨ _))

def candidates (datasource : String) (cat : Catalog) (cfg : Config) (preferred : List (String × String)) (only : List String) :
    List Candidate :=
  let chosen := chosenNames T datasource cat cfg preferred
  (addReverseRelationships
    ((cat.tables.filter fun t => only.contains t.key).map fun t =>
      ⟨t, candidateEntity datasource t chosen, ((latest chosen t.key).map CandidateName.id).getD ""⟩)
    cat.tables chosen).insertionSort Candidate.le

end

end SqlMcpServer.Configplan
