import SqlMcpServer.Lib.GoStrings
import SqlMcpServer.Entity

/-!
# Grants and the covering rule

`core/rbac`: the authorizer over an immutable registry and policy.
-/

namespace SqlMcpServer.Rbac
open Relalg

/-- The canonical role identity; `lower` is `unicode.ToLower`. -/
def normalizeRole (lower : Char → Char) (role : String) : String :=
  String.ofList ((GoStrings.trimSpace role.toList).map lower)

/-- The caller's attributes; a missing one is nil. -/
abbrev Subject := String → Value

structure Request where
  role : String
  entity : String
  action : Action
  fields : List String := []
  readFields : List String := []
  writeFields : List String := []
  subject : Subject := fun _ => .null

inductive Reason where
  /-- `entity %q not found` -/
  | entityNotFound (entity : String)
  /-- `role %q not permitted to %s %q` -/
  | notPermitted (role : String) (action : Action) (entity : String)
  /-- `role %q has no readable fields` -/
  | noReadableFields (role : String)
  /-- `field %q is not readable by role %q` -/
  | notReadable (field role : String)
  /-- `field %q is not writable by role %q` -/
  | notWritable (field role : String)
  /-- `no single grant of role %q covers the requested fields of %q` -/
  | noSingleGrant (role entity : String)
deriving DecidableEq, Repr

structure Decision where
  allowed : Bool
  reason : Option Reason := none
  fields : List String := []
  rowFilter : Predicate := .nil
  grants : List String := []
  fieldScopes : List (List String) := []

def denied (reason : Reason) : Decision := { allowed := false, reason := some reason }

/-- One compiled entity permission: no `fields` grants every visible field, nil `rows`
every row. -/
structure Grant where
  id : String
  actions : List Action
  fields : Option FieldPermissions := none
  rows : Predicate := .nil

def Grant.allows (g : Grant) (action : Action) : Bool := g.actions.contains action

structure Principal where
  roles : List String := []
  grants : List (String × List Grant) := []

structure Policy where
  roles : List (String × List (String × List Grant)) := []
  principals : List (String × Principal) := []

/-- `m[key]` of a map to slices: nothing for a missing key. -/
def lookupList {α : Type} (m : List (String × List α)) (key : String) : List α := (m.lookup key).getD []

def projectFields (visible : List Attribute) (requested : List String) : List String :=
  if requested = [] then visible.map (·.name)
  else if requested.length * visible.length ≤ 256 then
    requested.filter fun f => visible.any fun a => a.name == f || (a.aliasName == f && f != "")
  else
    let allowed := visible.flatMap fun a => if a.aliasName != "" then [a.name, a.aliasName] else [a.name]
    requested.filter allowed.contains

def fieldAllowed (field : String) (allowed : List String) (visible : List Attribute) : Bool :=
  allowed.contains field || visible.any fun a =>
    a.hasName field && (allowed.contains a.name || (a.aliasName != "" && allowed.contains a.aliasName))

def firstDenied (requested allowed : List String) (visible : List Attribute) : String :=
  (requested.find? fun f => !fieldAllowed f allowed visible).getD ""

def projectFieldsForACL (visible : List Attribute) (requested allowed : List String) : List String :=
  (projectFields visible requested).filter fun f => fieldAllowed f allowed visible

def grantProjection (visible : List Attribute) (requested : List String) (g : Grant) : List String :=
  match g.fields with
  | none => projectFields visible requested
  | some acl => projectFieldsForACL visible requested acl.read

def unionProjection (visible : List Attribute) (requested : List String) (grants : List Grant) :
    List String :=
  let seen := grants.flatMap (grantProjection visible requested)
  (projectFields visible requested).filter seen.contains

def allRestricted (grants : List Grant) : Bool := grants.all fun g => g.fields.isSome

def coversFields (visible : List Attribute) (read write : List String) (g : Grant) : Bool :=
  match g.fields with
  | none => true
  | some acl => firstDenied read acl.read visible == "" && firstDenied write acl.write visible == ""

def coveringGrants (grants : List Grant) (read write : List String) (visible : List Attribute) : List Grant :=
  grants.filter (coversFields visible read write)

/-- Parses `$\x7bsubject.attr\x7d`. -/
def subjectPlaceholder (s : String) : Option String :=
  let head := "$\x7bsubject.".toList
  if head.isPrefixOf s.toList && ['\x7d'].isSuffixOf s.toList then
    some (String.ofList ((s.toList.drop head.length).dropLast))
  else none

def resolveItem (subject : Subject) : Value → List Value
  | .str s =>
    match subjectPlaceholder s with
    | none => [.str s]
    | some attr =>
      match subject attr with
      | .list items => items
      | v => [v]
  | v => [v]

def resolveSubjectList (items : List Value) (subject : Subject) : List Value :=
  items.flatMap (resolveItem subject)

def resolveCondition (subject : Subject) (c : Condition) : Condition :=
  match c.value with
  | .str s =>
    match subjectPlaceholder s with
    | some attr => { c with value := subject attr }
    | none => c
  | .list items => { c with value := .list (resolveSubjectList items subject) }
  | _ => c

def resolveSubject (p : Predicate) (subject : Subject) : Predicate :=
  mapConditions (resolveCondition subject) p

def orPredicates (preds : List Predicate) : Predicate :=
  match preds with
  | [p] => p
  | _ => .or preds

def andPredicates (tenant filter : Predicate) : Predicate :=
  if filter.isNil then tenant else .and [tenant, filter]

/-- The covering grants' rows ORed (TRUE when one is unrestricted), the tenant policy
ANDed, and the grants' IDs. -/
def effectiveRowFilter (covering : List Grant) (tenant : Predicate) : Predicate × List String :=
  let rows := (covering.map (·.rows)).filter fun p => !p.isNil
  let unrestricted := covering.any fun g => g.rows.isNil
  let filter := if unrestricted then .nil else orPredicates rows
  (if tenant.isNil then filter else andPredicates tenant filter, covering.map (·.id))

structure GrantAuthorizer where
  registry : Registry
  policy : Policy
  /-- `unicode.ToLower`. -/
  lower : Char → Char

namespace GrantAuthorizer
variable (a : GrantAuthorizer)

def normalize (role : String) : String := normalizeRole a.lower role

/-- The entry of a map whose key is the role, else the first whose key is another
spelling of it. -/
def forRole {α : Type} (m : List (String × α)) (role : String) : Option α :=
  match m.lookup role with
  | some v => some v
  | none => (m.find? fun entry => a.normalize entry.1 == role).map (·.2)

def entityRoleGrant (e : Entity) (role : String) : Option Grant :=
  let actions := (e.role.filter fun entry => entry.2.any fun r => a.normalize r == role).map (·.1)
  if actions = [] then none
  else some { id := "entity:" ++ e.name ++ ":" ++ role, actions, fields := a.forRole e.fieldAccess role,
              rows := (a.forRole e.rowPolicies role).getD .nil }

/-- The loop of `NewGrantAuthorizer` over the roles an entity lists. -/
def compileRoles (e : Entity) : List String → List (String × Grant) → List (String × Grant)
  | [], byRole => byRole
  | r :: rs, byRole =>
    let role := a.normalize r
    if (byRole.lookup role).isSome then compileRoles e rs byRole
    else
      match a.entityRoleGrant e role with
      | some g => compileRoles e rs ((role, g) :: byRole)
      | none => compileRoles e rs byRole

def entityGrants (e : Entity) : List (String × Grant) :=
  a.compileRoles e (e.role.flatMap (·.2)) []

def known (name : String) : Bool :=
  a.policy.principals.any (fun p => a.normalize p.1 == name) ||
    a.policy.roles.any (fun r => a.normalize r.1 == name) ||
    a.registry.entities.any (fun e => (a.entityGrants e).any (·.1 == name))

def roleGrants (e : Entity) (action : Action) (role : String) : List Grant :=
  (lookupList (lookupList a.policy.roles role) e.name).filter (·.allows action) ++
    (((a.entityGrants e).lookup role).toList.filter (·.allows action))

/-- The grants on an entity that allow an action for the principal: its direct grants,
then those of each of its roles. A principal without an entry is a role. -/
def findCandidates (e : Entity) (principal : String) (action : Action) : List Grant :=
  match a.policy.principals.lookup principal with
  | some p => (lookupList p.grants e.name).filter (·.allows action) ++ p.roles.flatMap (a.roleGrants e action)
  | none => a.roleGrants e action principal

/-- The candidates found so far, by principal, entity name and action. -/
structure Memo where
  entries : List ((String × String × Action) × List Grant) := []
  sound : ∀ entry ∈ entries, ∀ e ∈ a.registry.entities, e.name = entry.1.2.1 →
    entry.2 = a.findCandidates e entry.1.1 entry.1.2.2 := by simp

variable {a}

def Memo.store (memo : Memo a) (e : Entity) (he : e ∈ a.registry.entities) (principal : String)
    (action : Action) : Memo a where
  entries := ((principal, e.name, action), a.findCandidates e principal action) :: memo.entries
  sound := by
    intro entry hentry f hf hname
    rcases List.mem_cons.mp hentry with rfl | hentry
    · rw [a.registry.eq_of_name_eq hf he hname]
    · exact memo.sound entry hentry f hf hname

/-- `findCandidates`, memoized for the principals known. -/
def candidates (memo : Memo a) (e : Entity) (he : e ∈ a.registry.entities) (principal : String)
    (action : Action) : List Grant × Memo a :=
  if principal = "" then ([], memo)
  else if !a.known principal then (a.findCandidates e principal action, memo)
  else
    match memo.entries.lookup (principal, e.name, action) with
    | some found => (found, memo)
    | none => (a.findCandidates e principal action, memo.store e he principal action)

end GrantAuthorizer

def returnsRows : Action → Bool
  | .create | .update | .delete => false
  | _ => true

def ambiguousFieldScope (req : Request) (candidates : List Grant) (visible : List Attribute) : Decision :=
  { allowed := false, reason := some (.noSingleGrant req.role req.entity),
    fieldScopes := candidates.map (grantProjection visible []) }

def deniedFieldScope (req : Request) (candidates : List Grant) (read write : List String)
    (visible : List Attribute) : Decision :=
  match read.find? fun f => (coveringGrants candidates [f] [] visible).isEmpty with
  | some f => denied (.notReadable f req.role)
  | none =>
    match write.find? fun f => (coveringGrants candidates [] [f] visible).isEmpty with
    | some f => denied (.notWritable f req.role)
    | none => ambiguousFieldScope req candidates visible

def project (req : Request) (res : Resolved) (covering : List Grant) :
    Except Decision (List String × List Grant) :=
  if !returnsRows req.action then .ok ([], covering)
  else
    let projected := unionProjection res.attributes req.fields covering
    if req.action ≠ .read then .ok (projected, covering)
    else if projected = [] then .error (denied (.noReadableFields req.role))
    else
      let serving := coveringGrants covering projected [] res.attributes
      if serving = [] then .error (ambiguousFieldScope req covering res.attributes)
      else .ok (projected, serving)

/-- The fields a request reads and writes: those it names as used, or when it names none
the fields it asks for. -/
def usedFields (req : Request) : List String × List String :=
  if req.readFields = [] ∧ req.writeFields = [] then
    match req.action with
    | .create | .update => (req.readFields, req.fields)
    | _ => (req.fields, req.writeFields)
  else (req.readFields, req.writeFields)

/-- `Authorize` from the candidates on. -/
def decision (req : Request) (res : Resolved) (candidates : List Grant) : Decision :=
  if candidates = [] then denied (.notPermitted req.role req.action req.entity)
  else
    let (read, write) := usedFields req
    if req.action = .read ∧ req.fields = [] ∧ allRestricted candidates ∧
        unionProjection res.attributes [] candidates = [] then
      denied (.noReadableFields req.role)
    else
      let covering := coveringGrants candidates read write res.attributes
      if covering = [] then deniedFieldScope req candidates read write res.attributes
      else
        match project req res covering with
        | .error d => d
        | .ok (projected, covering) =>
          let (filter, ids) := effectiveRowFilter covering res.entity.tenantPolicy
          { allowed := true, fields := projected, rowFilter := resolveSubject filter req.subject, grants := ids }

def authorize (a : GrantAuthorizer) (memo : GrantAuthorizer.Memo a) (req : Request) :
    Decision × GrantAuthorizer.Memo a :=
  let req := { req with role := a.normalize req.role }
  match h : a.registry.resolve req.entity with
  | none => (denied (.entityNotFound req.entity), memo)
  | some res =>
    let (candidates, memo) := GrantAuthorizer.candidates memo res.entity (Registry.resolve_mem h) req.role req.action
    (decision req res candidates, memo)

end SqlMcpServer.Rbac
