import SqlMcpServer.Configrefs
import SqlMcpServer.Workspace.Value

/-!
# Configurations and plans

`core/config` as far as plans read and write it, and the plans of `x/configplan`: a scope of
scanned tables, and the rules to apply to them. A Go map is the list of its entries.
-/

namespace SqlMcpServer.Configplan

open Workspaces (Value Fields)

abbrev FilterConfig := Fields

/-- The fields of a grant. A `write` that is not there is told from an empty one. -/
structure FieldACLConfig where
  read : List String
  write : Option (List String) := none
deriving DecidableEq

/-- One entity permission: no `fields` grants every visible field, empty `rows` all rows. -/
structure GrantConfig where
  entity : String
  actions : List String
  fields : Option FieldACLConfig := none
  rows : FilterConfig := []
deriving DecidableEq

structure FieldConfig where
  name : String
  mask : String := ""
  exclude : Bool := false
deriving DecidableEq, Repr

structure RelationshipConfig where
  name : String
  target : String
  cardinality : String
  joinOn : List (String × String)
deriving DecidableEq, Repr

structure EntityConfig extends EntityName where
  source : String := ""
  kind : String := ""
  description : String := ""
  primaryKey : List String := []
  uniqueKeys : List (List String) := []
  fields : List FieldConfig := []
  relationships : List RelationshipConfig := []
  affects : List String := []
  tenantPolicy : FilterConfig := []
  fieldACL : List (String × FieldACLConfig) := []
  rowPolicies : List (String × FilterConfig) := []
  /-- `MCP.DMLTools` -/
  dmlTools : Bool := true
deriving DecidableEq

namespace EntityConfig

def id (e : EntityConfig) : String := e.toEntityName.id

def physicalSource (e : EntityConfig) : String := if e.source = "" then e.name else e.source

def fieldNames (e : EntityConfig) : List String := e.fields.map FieldConfig.name

end EntityConfig

inductive PrincipalKind where
  | role | user
deriving DecidableEq, Repr

structure Principal where
  kind : PrincipalKind
  name : String
deriving DecidableEq, Repr

/-- A configuration; of roles and users, their grants. -/
structure Config where
  entities : List EntityConfig
  roles : List (String × List GrantConfig) := []
  users : List (String × List GrantConfig) := []
deriving DecidableEq

namespace Config

def names (cfg : Config) : List EntityName := cfg.entities.map EntityConfig.toEntityName

def ids (cfg : Config) : List String := cfg.entities.map EntityConfig.id

def holders (cfg : Config) : PrincipalKind → List (String × List GrantConfig)
  | .role => cfg.roles
  | .user => cfg.users

def grantsOf (cfg : Config) (p : Principal) : List GrantConfig := ((cfg.holders p.kind).lookup p.name).getD []

def setEntry (name : String) (grants : List GrantConfig) : List (String × List GrantConfig) → List (String × List GrantConfig)
  | [] => [(name, grants)]
  | e :: l => if e.1 = name then (name, grants) :: l else e :: setEntry name grants l

def setGrants (cfg : Config) (p : Principal) (grants : List GrantConfig) : Config :=
  match p.kind with
  | .role => { cfg with roles := setEntry p.name grants cfg.roles }
  | .user => { cfg with users := setEntry p.name grants cfg.users }

end Config

/-- What plans take from Go's `strings` and `path`. -/
structure GoText where
  /-- `strings.ToLower` -/
  lower : String → String
  /-- `strings.EqualFold` -/
  equalFold : String → String → Bool
  /-- `path.Match(pattern, name)`; false for an invalid pattern. -/
  glob : String → String → Bool
  validGlob : String → Bool

/-- Patterns compiled for matching, ignoring case: one without wildcards is a name to compare. -/
structure Globs where
  names : List String := []
  patterns : List String := []
  isSet : Bool := false

def isWildcard (p : String) : Bool := p.toList.any fun c => c = '*' ∨ c = '?' ∨ c = '[' ∨ c = '\\'

section
variable (T : GoText)

def compileGlobs (patterns : List String) : Globs where
  names := (patterns.map T.lower).filter fun p => ¬ isWildcard p
  patterns := (patterns.map T.lower).filter fun p => isWildcard p
  isSet := patterns ≠ []

def Globs.matches (g : Globs) (s : String) : Bool :=
  g.names.contains (T.lower s) || g.patterns.any fun p => T.glob p (T.lower s)

end

inductive Status where
  | new | workspace | published
deriving DecidableEq, Repr

/-- Selects scanned tables; every condition set must hold, an empty one is not set. -/
structure Scope where
  datasources : List String := []
  schemas : List String := []
  tables : List String := []
  search : String := ""
  status : List Status := []
  drift : Bool := false
  refs : List String := []
  entities : List String := []
deriving DecidableEq, Repr

structure GrantRule where
  /-- `role:<name>` or `user:<name>` -/
  principal : String
  actions : List String
  /-- Patterns of the fields granted; empty for every field. -/
  fields : List String := []
  rows : FilterConfig := []
deriving DecidableEq

/-- Hides or masks the fields of matching columns. -/
structure FieldRule where
  columns : List String
  types : List String := []
  exclude : Bool := false
  mask : String := ""
deriving DecidableEq, Repr

structure SyncRule where
  add : Bool := false
  remove : Bool := false
  hideNew : Bool := false
  removeTables : Bool := false
  keys : Bool := false
deriving DecidableEq, Repr

structure Plan where
  scope : Scope := {}
  imports : Bool := false
  grants : List GrantRule := []
  fields : List FieldRule := []
  sync : Option SyncRule := none
  exclude : List String := []
  /-- Names of the entities imported for tables, by ref. -/
  names : List (String × String) := []
deriving DecidableEq

inductive PlanError where
  /-- `plan: invalid pattern %q` -/
  | invalidPattern (pattern : String)
  /-- `plan: principal %q must be role:<name> or user:<name>` -/
  | principal (principal : String)
  /-- `plan: grant to %s needs actions` -/
  | noActions (principal : String)
  /-- `plan: unknown action %q (%s)` -/
  | unknownAction (action : String)
  /-- `plan: a field rule needs columns and exclude or mask` -/
  | fieldRule
  /-- `plan: nothing to do: set import, grants, fields or sync` -/
  | nothingToDo
  /-- `plan: exclude names no scanned table: %s` -/
  | unknownExcluded (refs : List String)
deriving DecidableEq, Repr

def grantable : List String := ["read", "aggregate", "create", "update", "delete"]

/-- `strings.Cut` at a colon. -/
def cutColon (s : String) : Option (String × String) :=
  match s.toList.dropWhile (· ≠ ':') with
  | [] => none
  | _ :: rest => some (String.ofList (s.toList.takeWhile (· ≠ ':')), String.ofList rest)

def principalOf (s : String) : Option Principal :=
  match cutColon s with
  | some (kind, name) =>
    if name = "" then none
    else if kind = "role" then some ⟨.role, name⟩
    else if kind = "user" then some ⟨.user, name⟩
    else none
  | none => none

section Check
variable (T : GoText)

def checkGlob (pattern : String) : Option PlanError :=
  if ¬ T.validGlob pattern ∨ pattern = "" then some (.invalidPattern pattern) else none

def GrantRule.error (g : GrantRule) : Option PlanError :=
  if principalOf g.principal = none then some (.principal g.principal)
  else if g.actions = [] then some (.noActions g.principal)
  else
    match g.actions.find? fun a => T.lower a ∉ grantable with
    | some a => some (.unknownAction a)
    | none => g.fields.findSome? (checkGlob T)

def GrantRule.normalized (g : GrantRule) : GrantRule :=
  { g with actions := grantable.filter fun a => a ∈ g.actions.map T.lower }

def FieldRule.errors (f : FieldRule) : List PlanError :=
  (if f.columns = [] ∨ (¬ f.exclude ∧ f.mask = "") then [.fieldRule] else []) ++ (f.columns ++ f.types).filterMap (checkGlob T)

def SyncRule.syncs (s : SyncRule) : Bool := s.add || s.remove || s.removeTables || s.keys

def Plan.errors (p : Plan) : List PlanError :=
  (p.scope.schemas ++ p.scope.tables).filterMap (checkGlob T) ++ p.grants.filterMap (GrantRule.error T) ++
    p.fields.flatMap (FieldRule.errors T) ++
    if ¬ p.imports ∧ p.grants = [] ∧ p.fields = [] ∧ ¬ p.sync.any SyncRule.syncs then [.nothingToDo] else []

def Plan.check (p : Plan) : Except (List PlanError) Plan :=
  if p.errors T = [] then .ok { p with grants := p.grants.map (GrantRule.normalized T) } else .error (p.errors T)

end Check

end SqlMcpServer.Configplan
