import SqlMcpServer.Relalg.Syntax
import Mathlib.Data.List.Nodup

/-!
# Entities

The exposed relations of `core/entity`: attributes with projection and masking controls, keys,
entity-level permissions and relationships, and the immutable registry that resolves references
to them.
-/

namespace SqlMcpServer

open List
open Relalg

inductive Kind where
  | table | view | procedure
deriving DecidableEq, Repr

inductive Action where
  | read | create | update | delete | execute | aggregate
deriving DecidableEq, Repr

structure Domain where
  type : String := ""
  nullable : Bool := false
  default : Bool := false
  generated : Bool := false
deriving DecidableEq, Repr

/-- One column of a relation; none is unnamed, and an unset alias is empty. -/
structure Attribute where
  name : String
  aliasName : String := ""
  domain : Domain := {}
  excluded : Bool := false
  mask : String := ""
  named : name ≠ "" := by decide
deriving DecidableEq, Repr

lemma Attribute.named_id : "id" ≠ "" := by decide

lemma Attribute.named_tenant : "tenant" ≠ "" := by decide

def Attribute.hasName (a : Attribute) (field : String) : Bool :=
  a.name == field || (a.aliasName != "" && a.aliasName == field)

lemma Attribute.hasName_name (a : Attribute) : a.hasName a.name = true := by simp [Attribute.hasName]

lemma Attribute.ne_empty_of_hasName {a : Attribute} {f : String} (h : a.hasName f) : f ≠ "" := by
  rintro rfl
  have hnamed := a.named
  simp_all [Attribute.hasName]

structure Key where
  columns : List String
  primary : Bool := false
  declared : Bool := false
  deferrable : Bool := false
  /-- Empty for a key that identifies at most one row. -/
  reason : String := ""
deriving DecidableEq, Repr

abbrev RoleAccess := List (Action × List String)

structure FieldPermissions where
  read : List String
  write : List String
deriving DecidableEq, Repr

abbrev FieldAccess := List (String × FieldPermissions)

abbrev RowPolicies := List (String × Predicate)

structure Relationship where
  name : String
  target : String
  cardinality : String
  /-- This field -> target field. -/
  joinOn : List (String × String)
deriving DecidableEq, Repr

def Relationship.single (r : Relationship) : Bool :=
  r.cardinality = "one" ∨ r.cardinality = "one-to-one" ∨ r.cardinality = "belongs-to"

/-- What a foreign key does to the referencing rows: `""` and every action that only checks
them are `check`. -/
inductive ReferentialAction where
  | check | cascade | setNull | setDefault
deriving DecidableEq, Repr

/-- `ReferentialWrite`: the action changes the referencing rows. -/
def ReferentialAction.writes (a : ReferentialAction) : Bool := a = .cascade ∨ a = .setNull ∨ a = .setDefault

lemma ReferentialAction.writes_iff {a : ReferentialAction} :
    a.writes = true ↔ a = .cascade ∨ a = .setNull ∨ a = .setDefault := by
  simp [ReferentialAction.writes]

/-- A foreign key of another relation, that writes its rows when rows of the referenced
relation change. -/
structure Cascade where
  schema : String := ""
  table : String := ""
  /-- The referencing relation's key and the entity exposing it, empty when none does; both
  set at assembly. -/
  relation : String := ""
  entity : String := ""
  columns : List String := []
  foreignColumns : List String := []
  onDelete : ReferentialAction := .check
  onUpdate : ReferentialAction := .check
deriving DecidableEq, Repr

structure Entity where
  name : String
  /-- The configured name; empty when `name` is not namespaced. -/
  localName : String := ""
  source : String := ""
  dataSource : String := ""
  schema : String := ""
  kind : Kind := .table
  attributes : List Attribute := []
  keys : List Key := []
  role : RoleAccess := []
  fieldAccess : FieldAccess := []
  rowPolicies : RowPolicies := []
  /-- ANDed for every principal; nil means no tenant boundary. -/
  tenantPolicy : Predicate := .nil
  relations : List Relationship := []
  /-- `MCP.DMLTools`: the record tools are on for the entity. -/
  dmlTools : Bool := true
  derived : Bool := false
  /-- Why the entity cannot be served; empty when it can. -/
  unavailable : String := ""
  /-- The physical relation, set at assembly. -/
  relation : String := ""
  /-- The entities a procedure writes; none means unknown. -/
  affects : List String := []
  cascades : List Cascade := []
  /-- Admits the writes of its cascades unchecked. -/
  allowCascade : Bool := false
  sideEffects : Bool := false

namespace Entity

def datasourceName (e : Entity) : String := if e.dataSource = "" then "default" else e.dataSource

/-- The canonical identity `datasource.schema.name`, or `datasource.name` without a schema. -/
def id (datasource schema name : String) : String :=
  let datasource := if datasource = "" then "default" else datasource
  if schema = "" then datasource ++ "." ++ name else datasource ++ "." ++ schema ++ "." ++ name

def referencesOf (datasource schema localName : String) : List String :=
  let datasource := if datasource = "" then "default" else datasource
  if schema = "" then [localName, datasource ++ "." ++ localName]
  else if schema = datasource then [localName, schema ++ "." ++ localName, id datasource schema localName]
  else [localName, schema ++ "." ++ localName, datasource ++ "." ++ localName, id datasource schema localName]

def references (e : Entity) : List String :=
  if e.localName = "" then [e.name] else referencesOf e.dataSource e.schema e.localName

def ref (e : Entity) : RelationRef := ⟨e.schema, e.source⟩

def relationKey (e : Entity) : String :=
  if e.relation ≠ "" then e.relation
  else
    let source := if e.source = "" then e.name else e.source
    "datasource:" ++ e.datasourceName ++ "\x00\x00" ++ e.schema ++ "\x00" ++ source

/-- The column sets that identify at most one row, primary key first. `enforced` drops
declared keys and `inTransaction` deferrable ones. -/
def identityKeys (e : Entity) (enforced inTransaction : Bool) : List (List String) :=
  [true, false].flatMap fun primary =>
    (e.keys.filter fun k => k.primary == primary && k.reason == "" && !(enforced && k.declared) &&
      !(inTransaction && k.deferrable)).map (·.columns)

def cursorKey (e : Entity) : Option (List String) := (e.identityKeys false false).head?

def attributeByName (e : Entity) (name : String) : Option Attribute :=
  if name = "" then none else e.attributes.find? (fun a => a.name == name || a.aliasName == name)

lemma attributeByName_hasName {e : Entity} {f : String} {a : Attribute} (h : e.attributeByName f = some a) :
    a ∈ e.attributes ∧ a.hasName f := by
  unfold attributeByName at h
  split at h
  · cases h
  · rename_i hne
    refine ⟨mem_of_find?_eq_some h, ?_⟩
    have hname := find?_some h
    simp only [Bool.or_eq_true, beq_iff_eq] at hname
    rcases hname with rfl | rfl
    · exact a.hasName_name
    · simp [Attribute.hasName, hne]

lemma attributeByName_of_hasName {e : Entity} {f : String} {a : Attribute} (ha : a ∈ e.attributes)
    (hf : a.hasName f) : ∃ b, e.attributeByName f = some b := by
  unfold attributeByName
  rw [if_neg (Attribute.ne_empty_of_hasName hf)]
  refine Option.isSome_iff_exists.mp (find?_isSome.mpr ⟨a, ha, ?_⟩)
  simp only [Attribute.hasName, Bool.or_eq_true, Bool.and_eq_true, beq_iff_eq] at hf ⊢
  exact hf.imp (fun h => h) (·.2)

def visible (e : Entity) : List Attribute := e.attributes.filter (fun a => !a.excluded)

end Entity

inductive RegistryError where
  /-- `ErrEmptyName` -/
  | emptyName
  /-- `ErrDuplicateEntity: %q` -/
  | duplicateEntity (name : String)
deriving DecidableEq, Repr

/-- An immutable set of entities: every name is set and names one entity. -/
structure Registry where
  entities : List Entity
  named : ∀ e ∈ entities, e.name ≠ ""
  nodup : (entities.map (·.name)).Nodup

/-- The first entity the loop of `NewRegistry` refuses, from the names taken so far. -/
def firstRefused : List Entity → List String → Option RegistryError
  | [], _ => none
  | e :: es, taken =>
    if e.name = "" then some .emptyName
    else if taken.contains e.name then some (.duplicateEntity e.name)
    else firstRefused es (e.name :: taken)

lemma firstRefused_eq_none {es : List Entity} {taken : List String} (h : firstRefused es taken = none) :
    (∀ e ∈ es, e.name ≠ "" ∧ e.name ∉ taken) ∧ (es.map (·.name)).Nodup := by
  induction es generalizing taken with
  | nil => simp
  | cons e es ih =>
    rw [firstRefused] at h
    by_cases hn : e.name = ""
    · simp [hn] at h
    by_cases ht : taken.contains e.name
    · rw [if_neg hn, if_pos ht] at h
      cases h
    rw [if_neg hn, if_neg ht] at h
    obtain ⟨hall, hnodup⟩ := ih h
    have hfresh : e.name ∉ taken := by simpa using ht
    constructor
    · intro f hf
      rcases mem_cons.mp hf with rfl | hf
      · exact ⟨hn, hfresh⟩
      · exact ⟨(hall f hf).1, fun hm => (hall f hf).2 (mem_cons_of_mem _ hm)⟩
    · rw [map_cons, nodup_cons]
      refine ⟨fun hm => ?_, hnodup⟩
      obtain ⟨f, hf, hfe⟩ := mem_map.mp hm
      exact (hall f hf).2 (by simp [hfe])

def newRegistry (es : List Entity) : Except RegistryError Registry :=
  match h : firstRefused es [] with
  | some e => .error e
  | none => .ok ⟨es, fun e he => ((firstRefused_eq_none h).1 e he).1, (firstRefused_eq_none h).2⟩

/-- An entity with field projection applied: its excluded attributes are removed. -/
structure Resolved where
  entity : Entity
  attributes : List Attribute
  shown : attributes = entity.visible

def Entity.resolved (e : Entity) : Resolved := ⟨e, e.visible, rfl⟩

namespace Registry

def byName (r : Registry) (name : String) : Option Entity := r.entities.find? (·.name == name)

def byRef (r : Registry) (ref : String) : List String :=
  r.entities.flatMap fun e => (e.references.filter (· == ref)).map fun _ => e.name

def resolve (r : Registry) (ref : String) : Option Resolved :=
  match r.byName ref with
  | some e => some e.resolved
  | none =>
    match r.byRef ref with
    | [name] => (r.byName name).map Entity.resolved
    | _ => none

lemma byName_mem {r : Registry} {name : String} {e : Entity} (h : r.byName name = some e) :
    e ∈ r.entities ∧ e.name = name := by
  unfold byName at h
  exact ⟨mem_of_find?_eq_some h, by simpa using find?_some h⟩

lemma resolve_mem {r : Registry} {ref : String} {res : Resolved} (h : r.resolve ref = some res) :
    res.entity ∈ r.entities := by
  unfold resolve at h
  cases hb : r.byName ref with
  | some e =>
    simp only [hb, Option.some.injEq] at h
    rw [← h]
    exact (byName_mem hb).1
  | none =>
    simp only [hb] at h
    split at h
    · obtain ⟨e, he, rfl⟩ := Option.map_eq_some_iff.mp h
      exact (byName_mem he).1
    · cases h

lemma eq_of_name_eq (r : Registry) {e f : Entity} (he : e ∈ r.entities) (hf : f ∈ r.entities)
    (h : e.name = f.name) : e = f :=
  inj_on_of_nodup_map r.nodup he hf h

lemma byName_of_mem (r : Registry) {e : Entity} (he : e ∈ r.entities) : r.byName e.name = some e := by
  have hfound : (r.byName e.name).isSome = true := find?_isSome.mpr ⟨e, he, by simp⟩
  obtain ⟨f, hf⟩ := Option.isSome_iff_exists.mp hfound
  obtain ⟨hmem, hname⟩ := byName_mem hf
  rw [hf, r.eq_of_name_eq hmem he hname]

end Registry

end SqlMcpServer
