import SqlMcpServer.Lib.GoInt
import SqlMcpServer.Lib.Transition
import Mathlib.Data.List.AList
import Mathlib.Data.Multiset.Count

/-!
# Execution budgets

`core/budget`: a table of states, one for each scope a caller runs in, with the calls running in
it and the cost they hold.
-/

namespace SqlMcpServer.Budget
open GoInt (int64)

structure Principal where
  role : String
  tenant : String
deriving DecidableEq, Repr

structure Scope where
  role : String
  tenant : String
  session : String
deriving DecidableEq, Repr

/-- `principalOf` -/
def Scope.principal (s : Scope) : Principal := ⟨s.role, s.tenant⟩

/-- Zero values are unlimited. -/
structure Limits where
  maxConcurrent : Int := 0
  maxExecution : Int := 0
  maxEstimatedScannedRows : Int := 0
  maxReturnedRows : Int := 0
  maxReturnedBytes : Int := 0
  maxSessionCost : Int := 0
deriving DecidableEq, Repr

structure Usage where
  estimatedScannedRows : Int := 0
  returnedRows : Int := 0
  returnedBytes : Int := 0
  cost : Int := 0

structure Reservation where
  cost : Int := 0
  estimatedScannedRows : Int := 0

structure State where
  inflight : Int := 0
  cost : Int := 0
  reserved : Int := 0
  touched : Int
  closed : Bool := false
  /-- The state has its places in the idle lists. -/
  listed : Bool := false
deriving DecidableEq, Repr

structure Holder where
  states : Nat := 0
  idle : List Scope := []
deriving DecidableEq, Repr

structure Manager where
  roles : String → Limits
  tenants : String → Option Limits
  sessions : AList fun _ : Scope => State
  /-- The calls running per tenant; 0 where the map has no entry. -/
  inflight : String → Int
  ttl : Int
  maxStates : Nat
  idle : List Scope
  holders : AList fun _ : Principal => Holder

structure Lease where
  scope : Scope
  limits : Limits
  reservedCost : Int
deriving DecidableEq, Repr

/-- A call that used more than its lease's limits, its session's cost being `sessionCost`. -/
def Lease.exceeded (l : Lease) (usage : Usage) (sessionCost : Int) : Bool :=
  (0 < l.limits.maxEstimatedScannedRows && l.limits.maxEstimatedScannedRows < usage.estimatedScannedRows) ||
  (0 < l.limits.maxReturnedRows && l.limits.maxReturnedRows < usage.returnedRows) ||
  (0 < l.limits.maxReturnedBytes && l.limits.maxReturnedBytes < usage.returnedBytes) ||
  (0 < l.limits.maxSessionCost && l.limits.maxSessionCost < sessionCost)

def newWithBounds (roles : String → Limits) (tenants : String → Option Limits) (ttl maxStates : Int) : Manager where
  roles := roles
  tenants := tenants
  sessions := ∅
  inflight _ := 0
  ttl := if ttl ≤ 0 then 1800000000000 else ttl
  maxStates := if maxStates ≤ 0 then 4096 else maxStates.toNat
  idle := []
  holders := ∅

def stricter (a b : Int) : Int := if b ≤ 0 then a else if a ≤ 0 then b else min a b

namespace Manager

def updateLimits (m : Manager) (roles : String → Limits) (tenants : String → Option Limits) : Manager :=
  { m with roles, tenants }

def limits (m : Manager) (scope : Scope) : Limits :=
  let l := m.roles scope.role
  match m.tenants scope.tenant with
  | none => l
  | some t =>
    if scope.tenant = "" then l
    else
      { maxConcurrent := l.maxConcurrent
        maxExecution := stricter l.maxExecution t.maxExecution
        maxEstimatedScannedRows := stricter l.maxEstimatedScannedRows t.maxEstimatedScannedRows
        maxReturnedRows := stricter l.maxReturnedRows t.maxReturnedRows
        maxReturnedBytes := stricter l.maxReturnedBytes t.maxReturnedBytes
        maxSessionCost := stricter l.maxSessionCost t.maxSessionCost }

def tenantConcurrency (m : Manager) (tenant : String) : Int :=
  if tenant = "" then 0 else (m.tenants tenant).elim 0 Limits.maxConcurrent

def store (m : Manager) (scope : Scope) (st : State) : Manager := { m with sessions := m.sessions.insert scope st }

def idleLocked (m : Manager) (scope : Scope) : Option Manager := do
  let st ← m.sessions.lookup scope
  let h ← m.holders.lookup scope.principal
  return { m.store scope { st with listed := true } with
    idle := m.idle ++ [scope]
    holders := m.holders.insert scope.principal { h with idle := h.idle ++ [scope] } }

def busyLocked (m : Manager) (scope : Scope) : Option Manager := do
  let st ← m.sessions.lookup scope
  if st.listed then
    let h ← m.holders.lookup scope.principal
    return { m.store scope { st with listed := false } with
      idle := m.idle.erase scope
      holders := m.holders.insert scope.principal { h with idle := h.idle.erase scope } }
  else return m

/-- The rest of `dropLocked`, the state being off the idle lists. -/
def removeLocked (m : Manager) (scope : Scope) : Option Manager := do
  let h ← m.holders.lookup scope.principal
  return { m with
    sessions := m.sessions.erase scope
    holders :=
      if h.states ≤ 1 then m.holders.erase scope.principal
      else m.holders.insert scope.principal { h with states := h.states - 1 } }

def dropLocked (m : Manager) (scope : Scope) : Option Manager :=
  match m.sessions.lookup scope with
  | none => some m
  | some _ => (m.busyLocked scope).bind (·.removeLocked scope)

/-- The loop of `pruneLocked`, which drops an idle state at each turn. -/
def pruneLoop (now : Int) : Nat → Manager → Option Manager
  | 0, m => some m
  | turns + 1, m =>
    match m.idle with
    | [] => some m
    | scope :: _ => do
      let st ← m.sessions.lookup scope
      if now - st.touched < m.ttl then return m
      let m ← m.dropLocked scope
      pruneLoop now turns m

def pruneLocked (m : Manager) (now : Int) : Option Manager := pruneLoop now m.idle.length m

def lruLocked (m : Manager) (h : Holder) : Option Int := do
  let scope ← h.idle.head?
  let st ← m.sessions.lookup scope
  return st.touched

def preferred (m : Manager) (h : Holder) : Option Holder → Option Bool
  | none => some true
  | some most =>
    if most.states < h.states then some true
    else if h.states = most.states then do
      let a ← m.lruLocked h
      let b ← m.lruLocked most
      return a < b
    else some false

def mostLocked (m : Manager) (order : List Principal) : Option (Option Holder) :=
  order.foldlM (fun most q => do
    let h ← m.holders.lookup q
    if h.idle = [] then return most
    return if ← m.preferred h most then some h else most) none

def victimLocked (m : Manager) (order : List Principal) (p : Principal) : Option (Option Scope) :=
  let own := (m.holders.lookup p).bind (·.idle.head?)
  match own with
  | some scope => some (some scope)
  | none => do
    let most ← m.mostLocked order
    match most with
    | none => return none
    | some most =>
      if (m.holders.lookup p).any (most.states ≤ ·.states) then return none
      let scope ← most.idle.head?
      return some scope

def addLocked (m : Manager) (scope : Scope) (now : Int) : Option Manager :=
  let h := (m.holders.lookup scope.principal).getD {}
  let m := { m with holders := m.holders.insert scope.principal { h with states := h.states + 1 } }
  (m.store scope { touched := now }).idleLocked scope

/-- `acquireStateLocked`; the inner none is the refusal of a full table. -/
def acquireStateLocked (m : Manager) (order : List Principal) (scope : Scope) (now : Int) : Option (Option Manager) :=
  match m.sessions.lookup scope with
  | some _ => some (some m)
  | none =>
    if m.maxStates ≤ m.sessions.keys.length then do
      match ← m.victimLocked order scope.principal with
      | none => return none
      | some victim =>
        let m ← m.dropLocked victim
        let m ← m.addLocked scope now
        return some m
    else (m.addLocked scope now).map some

def normalizeReservation (r : Reservation) : Reservation := ⟨max r.cost 0, max r.estimatedScannedRows 0⟩

/-- `checkReservationLimits` refuses. -/
def overLimits (limits : Limits) (st : State) (r : Reservation) : Bool :=
  (0 < limits.maxConcurrent && limits.maxConcurrent ≤ st.inflight) ||
  (0 < limits.maxEstimatedScannedRows && limits.maxEstimatedScannedRows < r.estimatedScannedRows) ||
  (0 < limits.maxSessionCost &&
    (limits.maxSessionCost ≤ st.cost ||
      int64 (limits.maxSessionCost - st.cost) ≤ st.reserved ||
      int64 (int64 (limits.maxSessionCost - st.cost) - st.reserved) < r.cost))

def tenantFull (m : Manager) (tenant : String) : Bool :=
  0 < m.tenantConcurrency tenant && m.tenantConcurrency tenant ≤ m.inflight tenant

def setTenant (m : Manager) (tenant : String) (calls : Int) : Manager :=
  if tenant = "" then m else { m with inflight := Function.update m.inflight tenant calls }

def beginCall (st : State) (r : Reservation) (now : Int) : State :=
  { st with inflight := st.inflight + 1, reserved := int64 (st.reserved + r.cost), touched := now }

def beginLocked (m : Manager) (scope : Scope) (r : Reservation) (now : Int) : Option Manager := do
  let m ← (m.setTenant scope.tenant (m.inflight scope.tenant + 1)).busyLocked scope
  let st ← m.sessions.lookup scope
  return m.store scope (beginCall st r now)

/-- The inner none of the result is `ErrExceeded`. -/
def acquireWithReservation (m : Manager) (order : List Principal) (scope : Scope) (r : Reservation) (now : Int) :
    Option (Manager × Option Lease) := do
  let pruned ← m.pruneLocked now
  let limits := pruned.limits scope
  let r := normalizeReservation r
  match ← pruned.acquireStateLocked order scope now with
  | none => return (pruned, none)
  | some m =>
    let st ← m.sessions.lookup scope
    if overLimits limits st r then return (m, none)
    if m.tenantFull scope.tenant then return (m, none)
    let m ← m.beginLocked scope r now
    return (m, some ⟨scope, limits, r.cost⟩)

/-- One turn of `CloseSession`'s loop. -/
def closeLocked (session : String) (m : Manager) (scope : Scope) : Option Manager :=
  if scope.session = session then do
    let st ← m.sessions.lookup scope
    let m := m.store scope { st with cost := 0 }
    if st.inflight = 0 then m.dropLocked scope
    else return m.store scope { st with cost := 0, closed := true }
  else some m

def closeSession (m : Manager) (session : String) : Option Manager :=
  if session = "" then some m else m.sessions.keys.foldlM (closeLocked session) m

/-- What `Complete` writes to the state of its call. -/
def endCall (st : State) (l : Lease) (usage : Usage) (now : Int) : State :=
  { st with
    inflight := st.inflight - 1
    reserved := int64 (st.reserved - l.reservedCost)
    cost := if 0 < usage.cost then int64 (st.cost + usage.cost) else st.cost
    touched := now }

/-- Where the state of a call that ended goes: it stays, is dropped if it was closed, or is
listed as idle. -/
def afterCall (m : Manager) (scope : Scope) (st : State) : Option Manager :=
  if 0 < st.inflight then some m
  else if st.closed then m.dropLocked scope
  else m.idleLocked scope

/-- The body of `Complete`; the flag is `ErrExceeded`. -/
def complete (m : Manager) (l : Lease) (usage : Usage) (now : Int) : Option (Manager × Bool) := do
  let st ← m.sessions.lookup l.scope
  let running := m.inflight l.scope.tenant - 1
  let m := m.setTenant l.scope.tenant (if running ≤ 0 then 0 else running)
  let st := endCall st l usage now
  let m ← (m.store l.scope st).afterCall l.scope st
  return (m, l.exceeded usage st.cost)

end Manager

structure System where
  manager : Manager
  leases : Multiset Lease
  now : Int

inductive Action where
  /-- `order` is how the holders are iterated, when the table is full. -/
  | acquire (scope : Scope) (r : Reservation) (order : List Principal)
  | complete (l : Lease) (usage : Usage)
  | closeSession (session : String)
  | updateLimits (roles : String → Limits) (tenants : String → Option Limits)
  | wait (elapsed : Nat)

def System.visits (s : System) (order : List Principal) : Bool :=
  (s.manager.pruneLocked s.now).all fun m => order.Perm m.holders.keys

def System.step (s : System) : Action → Option System
  | .acquire scope r order =>
    if s.visits order then do
      let (m, lease) ← s.manager.acquireWithReservation order scope r s.now
      return { s with manager := m, leases := lease.elim s.leases (· ::ₘ s.leases) }
    else none
  | .complete l usage =>
    -- A lease completes once: it is then no longer held.
    if l ∈ s.leases then do
      let (m, _) ← s.manager.complete l usage s.now
      return { s with manager := m, leases := s.leases.erase l }
    else none
  | .closeSession session => (s.manager.closeSession session).map fun m => { s with manager := m }
  | .updateLimits roles tenants => some { s with manager := s.manager.updateLimits roles tenants }
  | .wait elapsed => some { s with now := s.now + elapsed }

end SqlMcpServer.Budget
