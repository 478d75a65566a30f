import Mathlib.Data.List.Lookmap
import SqlMcpServer.Configplan.Candidates

/-!
# Evaluating a plan

`Evaluate` of `x/configplan`: the tables of the scope are imported, references the imports made
ambiguous are qualified, configured tables are synced with their columns, and the field and
grant rules applied.
-/

namespace SqlMcpServer.Configplan

open Workspaces (Value Fields Schema)

structure Input where
  base : Config
  published : Option Config := none
  sources : List Source
  /-- The entities whose tables the serving configuration found missing, by ID. -/
  missing : List String := []
  /-- By entity ID, the fields whose columns it found missing. -/
  missingFields : List (String × List String) := []

inductive ChangeKind where
  | imports | createRole | grant | exclude | mask | syncAdd | syncRemove | removeTable | syncKeys | syncKind
deriving DecidableEq, Repr

structure Change where
  kind : ChangeKind
  principal : String := ""
  actions : List String := []
  mask : String := ""
  entity : String := ""
  fields : Nat := 0
deriving DecidableEq, Repr

structure Target where
  row : Row
  id : String
  new : Bool := false

structure Evaluation where
  cfg : Config
  known : List EntityName
  added : List String := []
  removed : List String := []
  changed : List String := []
  roles : List String := []
  users : List String := []
  changes : List Change := []
  dropped : List (String × String) := []

namespace Evaluation

def start (base : Config) : Evaluation := { cfg := base, known := base.names }

def entity (ev : Evaluation) (id : String) : Option EntityConfig := Keyed.findLast EntityConfig.id id ev.cfg.entities

def editEntity (ev : Evaluation) (id : String) (f : EntityConfig → EntityConfig) : Evaluation :=
  { ev with cfg := { ev.cfg with entities := Keyed.updateLast EntityConfig.id id f ev.cfg.entities } }

def change (ev : Evaluation) (id : String) (f : EntityConfig → EntityConfig) : Evaluation :=
  { ev.editEntity id f with changed := ev.changed ++ [id] }

def summarize (ev : Evaluation) (cs : List Change) : Evaluation := { ev with changes := ev.changes ++ cs }

def resolve (ev : Evaluation) (ref : String) : Option String := entityNaming.idOf ev.known ref

def mapGrants (f : GrantConfig → Option GrantConfig) (ev : Evaluation) : Evaluation :=
  let edited (ps : List (String × List GrantConfig)) := (ps.filter fun p => p.2.any fun g => f g ≠ some g).map Prod.fst
  { ev with
    cfg := { ev.cfg with
      roles := ev.cfg.roles.map fun p => (p.1, p.2.filterMap f)
      users := ev.cfg.users.map fun p => (p.1, p.2.filterMap f) }
    roles := ev.roles ++ edited ev.cfg.roles
    users := ev.users ++ edited ev.cfg.users }

def importEntity (ev : Evaluation) (e : EntityConfig) : Evaluation :=
  { ev with
    cfg := { ev.cfg with entities := ev.cfg.entities ++ [e] }
    added := ev.added ++ [e.id], changed := ev.changed ++ [e.id]
    changes := ev.changes ++ [{ kind := .imports, entity := e.id }] }

end Evaluation

section
variable (T : GoText) (input : Input) (p : Plan)

/-- The entities imported for the new tables of a datasource. A table of another source of the
same name gets an empty entity. -/
def importsFrom (src : Source) (news : List Row) : List (Row × EntityConfig) :=
  let names := news.filterMap fun r => (p.names.lookup r.ref).map fun name => (r.table.key, name)
  let byKey := (candidates T src.datasource src.catalog input.base names (news.map fun r => r.table.key)).map fun c =>
    (c.table.key, c.entity)
  news.map fun r => (r, (latest byKey r.table.key).getD { name := "", dmlTools := false })

def planImports (rows : List Row) : List (Row × EntityConfig) :=
  if p.imports then
    input.sources.flatMap fun src =>
      importsFrom T input p src (rows.filter fun r => r.entity.isNone ∧ r.datasource = src.datasource)
  else []

def dropDangling (ev : Evaluation) (id : String) : Evaluation :=
  ev.editEntity id fun e => { e with relationships := e.relationships.filter fun r => r.target ∈ ev.cfg.ids }

def importTables (rows : List Row) (ev : Evaluation) : Evaluation :=
  let ev := (planImports T input p rows).foldl (fun ev i => ev.importEntity i.2) ev
  let ev := ev.added.foldl dropDangling ev
  { ev with known := ev.cfg.names }

def targetsOf (rows : List Row) : List Target :=
  (rows.filterMap fun r => r.entity.map fun e => { row := r, id := e.id }) ++
    (planImports T input p rows).map fun i => { row := i.1, id := i.2.id, new := true }

def Evaluation.fix (base : Config) (ev : Evaluation) (ref : String) : Option String :=
  entityNaming.retarget ref base.names ev.cfg.names fun id => if id ∈ ev.removed then some none else none

def qualifyGrant (fix : String → Option String) (g : GrantConfig) : Option GrantConfig :=
  (fix g.entity).map fun ref => { g with entity := ref }

def qualifyRelationship (fix : String → Option String) (r : RelationshipConfig) : Option RelationshipConfig :=
  (fix r.target).map fun ref => { r with target := ref }

def qualifyEntity (fix : String → Option String) (e : EntityConfig) : EntityConfig :=
  { e with relationships := e.relationships.filterMap (qualifyRelationship fix), affects := e.affects.filterMap fix }

def qualifyReferences (base : Config) (ev : Evaluation) : Evaluation :=
  if ev.added = [] ∧ ev.removed = [] then ev
  else
    let fix := ev.fix base
    let ev := ev.mapGrants (qualifyGrant fix)
    { ev with
      cfg := { ev.cfg with entities := ev.cfg.entities.map (qualifyEntity fix) }
      changed := ev.changed ++ (ev.cfg.entities.filter fun e => qualifyEntity fix e ≠ e).map EntityConfig.id }

def filterFieldsOf : Nat → Value → List String
  | n + 1, .object m =>
    if (Fields.property m "op").isSome then
      match Fields.property m "field" with
      | some (.text f) => [f]
      | _ => []
    else
      match Fields.property m "not" with
      | some inner => filterFieldsOf n inner
      | none =>
        ["and", "or"].flatMap fun key =>
          match Fields.property m key with
          | some (.list items) => items.flatMap (filterFieldsOf n)
          | _ => []
  | _, _ => []

def rowFields (rows : FilterConfig) : List String := filterFieldsOf ((Value.object rows).depth + 1) (.object rows)

def entityUses (resolve : String → Option String) (e : EntityConfig) : List (String × String) :=
  (e.relationships.flatMap fun r => r.joinOn.flatMap fun (near, far) =>
      (e.id, near) :: (resolve r.target).toList.map fun target => (target, far)) ++
    (e.primaryKey ++ e.uniqueKeys.flatten ++ rowFields e.tenantPolicy ++
      (e.fieldACL.flatMap fun acl => acl.2.read ++ acl.2.write.getD []) ++
      e.rowPolicies.flatMap fun policy => rowFields policy.2).map fun f => (e.id, f)

def Evaluation.fieldUses (ev : Evaluation) : List (String × String) :=
  ev.cfg.entities.flatMap (entityUses ev.resolve) ++
    (ev.cfg.roles ++ ev.cfg.users).flatMap fun holder => holder.2.flatMap fun g =>
      (ev.resolve g.entity).toList.flatMap fun id => (rowFields g.rows).map fun f => (id, f)

def syncKind (ev : Evaluation) (t : Target) : Evaluation :=
  let kind := kindName t.row.table.kind
  if (ev.entity t.id).any fun e => e.kind ≠ kind then
    (ev.change t.id fun e => { e with kind := kind }).summarize [{ kind := .syncKind, entity := t.id }]
  else ev

def sameKeys (a b : List (List String)) : Prop :=
  (a.map (String.intercalate "\x00")).Perm (b.map (String.intercalate "\x00"))

instance (a b : List (List String)) : Decidable (sameKeys a b) := inferInstanceAs (Decidable (List.Perm _ _))

def fieldKeys (rule : SyncRule) (t : Target) (e : EntityConfig) : List String × List (List String) :=
  let fields := e.fieldNames ++ if rule.add then t.row.added else []
  let known (key : List String) : Bool := key.all fields.contains
  (if known t.row.table.primaryKey then t.row.table.primaryKey else [], t.row.table.identityUniqueKeys.filter known)

def syncKeys (rule : SyncRule) (ev : Evaluation) (t : Target) : Evaluation :=
  match ev.entity t.id with
  | none => ev
  | some e =>
    let keys := fieldKeys rule t e
    if t.row.table.kind = .view ∨ (e.primaryKey = keys.1 ∧ sameKeys e.uniqueKeys keys.2) then ev
    else
      (ev.change t.id fun e => { e with primaryKey := keys.1, uniqueKeys := keys.2 }).summarize
        [{ kind := .syncKeys, entity := t.id }]

def syncStructure (rule : SyncRule) (targets : List Target) (ev : Evaluation) : Evaluation :=
  input.sources.foldl (fun ev src =>
    (targets.filter fun t => ¬ t.new ∧ t.row.table.source ≠ "" ∧ t.row.datasource = src.datasource).foldl
      (fun ev t => syncKeys rule (syncKind ev t) t) ev) ev

def syncAdd (rule : SyncRule) (t : Target) (ev : Evaluation) : Evaluation :=
  if rule.add ∧ t.row.added ≠ [] then
    (ev.change t.id fun e =>
      { e with fields := e.fields ++ t.row.added.map fun name => { name, exclude := rule.hideNew } }).summarize
      [{ kind := .syncAdd, entity := t.id, fields := t.row.added.length }]
  else ev

def removeField (t : Target) (ev : Evaluation) (field : String) : Evaluation :=
  if (t.id, field) ∈ ev.fieldUses then ev
  else
    let ev := (ev.change t.id fun e => { e with fields := e.fields.filter fun f => f.name ≠ field }).summarize
      [{ kind := .syncRemove, entity := t.id, fields := 1 }]
    { ev with dropped := ev.dropped ++ [(t.id, field)] }

def sync (rule : SyncRule) (ev : Evaluation) (t : Target) : Evaluation :=
  if t.new then ev
  else
    let ev := syncAdd rule t ev
    if rule.remove then t.row.missing.foldl (removeField t) ev else ev

def dropFields (ev : Evaluation) (g : GrantConfig) : GrantConfig :=
  match g.fields, ev.resolve g.entity with
  | some acl, some id =>
    { g with fields := some ⟨acl.read.filter fun f => (id, f) ∉ ev.dropped,
      acl.write.map fun write => write.filter fun f => (id, f) ∉ ev.dropped⟩ }
  | _, _ => g

def dropGrantFields (ev : Evaluation) : Evaluation :=
  if ev.dropped = [] then ev else ev.mapGrants fun g => some (dropFields ev g)

def configuredFields (e : EntityConfig) (columns : List String) : List String := columns.filter fun c => c ∈ e.fieldNames

def statusOf (id : String) : Status :=
  if input.published.any fun cfg => id ∈ cfg.ids then .published else .workspace

/-- The target of an entity in scope that the serving configuration found incomplete. Its row
has no table: nothing scanned it. -/
def runtimeTarget (ev : Evaluation) (targets : List Target) (id : String) : Option Target :=
  if id ∈ targets.map Target.id then none
  else
    (ev.entity id).bind fun e =>
      let table := tableOf ((input.sources.reverse.find? fun s => s.datasource = e.datasourceName).map
        fun s => s.catalog.default) e
      let row : Row :=
        { ref := refOf e.datasourceName table.schema table.source, datasource := e.datasourceName
          status := statusOf input id, entity := some e
          missing := configuredFields e ((input.missingFields.lookup id).getD []) }
      if e.kind = "procedure" ∨ row.ref ∈ p.exclude ∨ ¬ p.scope.datasource e.datasourceName ∨
          ¬ p.scope.table T e.datasourceName table ∨ ¬ p.scope.row row then none
      else some { row, id }

def runtimeTargets (ev : Evaluation) (targets : List Target) : List Target :=
  (((input.missingFields.map Prod.fst).dedup).insertionSort fun a b => ¬ b < a).filterMap
    (runtimeTarget T input p ev targets)

/-- Removes the entities of gone tables. References are resolved among those left, unless the
resolver was built before (`early`). -/
def removeGone (early : Bool) (gone : List Gone) (ev : Evaluation) : Evaluation :=
  let drop := ((gone.filter fun g => g.entity ∈ ev.cfg.ids ∧ g.ref ∉ p.exclude).map Gone.entity).dedup
  let left := ev.cfg.entities.filter fun e => e.id ∉ drop
  { ev with
    cfg := { ev.cfg with entities := left }
    known := if early then ev.known else left.map EntityConfig.toEntityName
    changed := ev.changed.filter fun id => id ∉ drop
    removed := ev.removed ++ drop
    changes := (ev.changes.filter fun c => c.entity ∉ drop) ++ drop.map fun id => { kind := .removeTable, entity := id } }

def syncTargets (rule : SyncRule) (targets : List Target) (ev : Evaluation) : Evaluation :=
  dropGrantFields (targets.foldl (sync rule) (if rule.keys then syncStructure input rule targets ev else ev))

def syncAll (early : Bool) (rule : SyncRule) (targets : List Target) (ev : Evaluation) : Evaluation :=
  let ev := syncTargets input rule (targets ++ runtimeTargets T input p ev targets) ev
  if rule.removeTables then removeGone p early (goneTables T input.sources input.base p.scope input.missing) ev else ev

def Row.columnType (r : Row) (name : String) : String :=
  ((r.table.columns.find? fun c => c.name = name).map Column.type).getD ""

def FieldRule.matches (rule : FieldRule) (r : Row) (f : FieldConfig) : Bool :=
  (compileGlobs T rule.columns).matches T f.name &&
    (rule.types = [] || (compileGlobs T rule.types).matches T (r.columnType f.name))

def FieldRule.apply (rule : FieldRule) (r : Row) (f : FieldConfig) : FieldConfig :=
  if rule.matches T r f then
    { f with exclude := f.exclude || rule.exclude, mask := if rule.mask = "" then f.mask else rule.mask }
  else f

def FieldRule.changes (rule : FieldRule) (t : Target) (f : FieldConfig) : List Change :=
  if rule.matches T t.row f then
    (if rule.exclude ∧ ¬ f.exclude then [{ kind := .exclude, entity := t.id, fields := 1 }] else []) ++
      if rule.mask ≠ "" ∧ f.mask ≠ rule.mask then [{ kind := .mask, mask := rule.mask, entity := t.id, fields := 1 }] else []
  else []

def applyRule (t : Target) (ev : Evaluation) (rule : FieldRule) : Evaluation :=
  let cs := ((ev.entity t.id).map fun e => e.fields.flatMap (rule.changes T t)).getD []
  if cs = [] then ev
  else (ev.change t.id fun e => { e with fields := e.fields.map (rule.apply T t.row) }).summarize cs

def applyFields (ev : Evaluation) (t : Target) : Evaluation := p.fields.foldl (applyRule T t) ev

def writes : List String := ["update", "delete"]

def grantedActions (rule : GrantRule) (e : EntityConfig) : List String :=
  if e.primaryKey = [] ∧ e.uniqueKeys = [] then rule.actions.filter fun a => a ∉ writes else rule.actions

def grantedFields (rule : GrantRule) (e : EntityConfig) : List String :=
  (e.fields.filter fun f => ¬ f.exclude ∧ (compileGlobs T rule.fields).matches T f.name).map FieldConfig.name

def grantFor (rule : GrantRule) (id : String) (e : EntityConfig) : Option GrantConfig :=
  let actions := grantedActions rule e
  if actions = [] then none
  else if rule.fields = [] then some { entity := id, actions, rows := rule.rows }
  else
    let fields := grantedFields T rule e
    if fields = [] then none
    else
      let write := if "create" ∈ actions ∨ "update" ∈ actions then some fields else none
      some { entity := id, actions, fields := some ⟨fields, write⟩, rows := rule.rows }

/-- The same fields, an empty list the same as none written. -/
def sameFields : Option FieldACLConfig → Option FieldACLConfig → Bool
  | some a, some b => a.read = b.read ∧ a.write.getD [] = b.write.getD []
  | none, none => true
  | _, _ => false

def plainJSON : Schema := ⟨fun _ => none, fun _ => false⟩

def sameRows (a b : FilterConfig) : Bool :=
  if a = [] ∨ b = [] then a = [] ∧ b = [] else plainJSON.Same (some (.object a)) (some (.object b))

structure Held where
  on : Option String
  grant : GrantConfig

def mergeable (g : GrantConfig) (h : GrantConfig) : Bool := sameFields h.fields g.fields && sameRows h.rows g.rows

def mergeGrant (g h : GrantConfig) : GrantConfig := { h with actions := h.actions ++ g.actions.filter fun a => a ∉ h.actions }

def widenable (g h : GrantConfig) : Bool :=
  match h.fields, g.fields with
  | some have_, some wide =>
    sameRows h.rows g.rows && decide (h.actions.Perm g.actions) && (have_.write.isNone == wide.write.isNone) &&
      (have_.write.all fun write => write = have_.read) && have_.read.all fun f => f ∈ wide.read
  | _, _ => false

def widenGrant (g h : GrantConfig) : GrantConfig := { h with fields := g.fields }

def editHeld (id : String) (applies : GrantConfig → Bool) (f : GrantConfig → GrantConfig) (held : List Held) : List Held :=
  held.lookmap fun h => if h.on = some id ∧ applies h.grant then some { h with grant := f h.grant } else none

/-- Merges a grant into those held, widens one of them or appends it; and whether that changed
anything. -/
def placeGrant (wildcard : Bool) (id : String) (g : GrantConfig) (held : List Held) : List Held × Bool :=
  match held.find? fun h => h.on = some id ∧ mergeable g h.grant with
  | some h => (editHeld id (mergeable g) (mergeGrant g) held, g.actions.any fun a => a ∉ h.grant.actions)
  | none =>
    if wildcard ∧ held.any fun h => h.on = some id ∧ widenable g h.grant then
      (editHeld id (widenable g) (widenGrant g) held, true)
    else (held ++ [⟨some id, g⟩], true)

structure Granting where
  held : List Held
  changes : List Change := []

def grantTarget (rule : GrantRule) (ev : Evaluation) (s : Granting) (t : Target) : Granting :=
  match (ev.entity t.id).bind (grantFor T rule t.id) with
  | none => s
  | some g =>
    let placed := placeGrant ((compileGlobs T rule.fields).patterns ≠ []) t.id g s.held
    { held := placed.1
      changes := s.changes ++
        if placed.2 then [{ kind := .grant, principal := rule.principal, actions := g.actions, entity := t.id }] else [] }

def createRole (rule : GrantRule) (name : String) (ev : Evaluation) : Evaluation :=
  if (ev.cfg.roles.lookup name).isSome then ev
  else
    { ev with
      cfg := ev.cfg.setGrants ⟨.role, name⟩ [], roles := ev.roles ++ [name]
      changes := ev.changes ++ [{ kind := .createRole, principal := rule.principal }] }

def Evaluation.setGrants (ev : Evaluation) (q : Principal) (grants : List GrantConfig) : Evaluation :=
  { ev with
    cfg := ev.cfg.setGrants q grants
    roles := if q.kind = .role then ev.roles ++ [q.name] else ev.roles
    users := if q.kind = .user then ev.users ++ [q.name] else ev.users }

def grantTo (rule : GrantRule) (targets : List Target) (q : Principal) (ev : Evaluation) : Evaluation :=
  let s := targets.foldl (grantTarget T rule ev)
    ⟨(ev.cfg.grantsOf q).map fun g => ⟨ev.resolve g.entity, g⟩, []⟩
  if s.changes = [] then ev else (ev.setGrants q (s.held.map Held.grant)).summarize s.changes

/-- Applies a grant rule to the entities the plan applies to; one that names an unknown user
grants nothing. -/
def grant (targets : List Target) (ev : Evaluation) (rule : GrantRule) : Evaluation :=
  match principalOf rule.principal with
  | none => ev
  | some ⟨.user, name⟩ => if (ev.cfg.users.lookup name).isSome then grantTo T rule targets ⟨.user, name⟩ ev else ev
  | some ⟨.role, name⟩ => grantTo T rule targets ⟨.role, name⟩ (createRole rule name ev)

def unknownExcluded : List String :=
  p.exclude.filter fun ref =>
    ¬ (input.sources.any fun src => src.catalog.tables.any fun t => refOf src.datasource t.schema t.source = ref) ∧
      ¬ (goneTables T input.sources input.base {} input.missing).any fun g => g.ref = ref

def planRows : List Row := (rows T input.sources input.base input.published p.scope).filter fun r => r.ref ∉ p.exclude

def prepare (early : Bool) : Evaluation :=
  let rows := planRows T input p
  let ev := qualifyReferences input.base (importTables T input p rows (.start input.base))
  match p.sync with
  | some rule => syncAll T input p early rule (targetsOf T input p rows) ev
  | none => ev

def ruleTargets (ev : Evaluation) : List Target :=
  let targets := targetsOf T input p (planRows T input p)
  if p.sync.any SyncRule.removeTables then targets.filter fun t => t.id ∈ ev.cfg.ids else targets

def beforeGrants (early : Bool) : Evaluation :=
  let ev := prepare T input p early
  (ruleTargets T input p ev).foldl (applyFields T p) ev

def afterGrants (early : Bool) : Evaluation :=
  p.grants.foldl (grant T (ruleTargets T input p (prepare T input p early))) (beforeGrants T input p early)

def evaluate (early : Bool) : Except (List PlanError) Evaluation :=
  match p.check T with
  | .error errs => .error errs
  | .ok p =>
    let unknown := unknownExcluded T input p
    if unknown ≠ [] then .error [.unknownExcluded unknown]
    else
      let ev := afterGrants T input p early
      .ok (if ev.removed = [] then ev else qualifyReferences input.base ev)

end

end SqlMcpServer.Configplan
