import SqlMcpServer.Lib.Transition
import Mathlib.Logic.Function.Basic

/-!
# Explicit transactions

`TransactionManager` as a transition system. A step is what one goroutine does under one lock,
or one exchange with the database; between two of them any other may come.
-/

namespace SqlMcpServer.Transactions

open Function (update)

abbrev Token := Nat
abbrev Thread := Nat
abbrev Connection := Nat

structure CacheTarget where
  physical : String
  relation : String
deriving DecidableEq, Repr

inductive Outcome where
  | committed | rolledBack | expired | unknown
deriving DecidableEq, Repr

/-- How a transaction stands on the database; `lost` is a commit whose answer was. -/
inductive TxState where
  | opened | committed | rolledBack | lost
deriving DecidableEq, Repr

/-- Where a handle is on its way through the manager. -/
inductive Stage where
  | begun
  | registered
  /-- Taken out of the table, to be rolled back and recorded with the outcome. -/
  | aborting (outcome : Outcome)
  /-- Taken out of the table by a Commit or a Rollback, which waits for its lock. -/
  | finishing (thread : Thread) (commit : Bool)
  /-- Ended on the database, the outcome not recorded yet. -/
  | burying (outcome : Outcome)
  | ended
deriving DecidableEq, Repr

structure Handle where
  connection : Connection
  session : String
  scope : String
  datasource : String
  /-- None without a lifetime. -/
  expires : Option Nat
  idle : Nat
  dirty : List CacheTarget
  closed : Bool
  /-- The statement that holds the handle's lock, which is the one running. -/
  holder : Option Thread
  used : Nat
  stage : Stage
  tx : TxState
  /-- How often the manager ended the transaction on the database. -/
  endings : Nat
deriving DecidableEq, Repr

/-- `m.ending[token]` -/
def Handle.isEnding (h : Handle) : Bool :=
  match h.stage with
  | .aborting _ | .finishing _ _ | .burying _ => true
  | _ => false

structure Caller where
  session : String
  scope : String
deriving DecidableEq, Repr

inductive Purpose where
  | validate
  | db
  | markDirty (targets : List CacheTarget)
  | commit
  | rollback
deriving DecidableEq, Repr

structure Call where
  token : Token
  caller : Caller
  /-- Empty for any. -/
  datasource : String
  /-- The current connections of the datasource, when the transaction must be on one. -/
  connections : Option (List Connection)
  purpose : Purpose
deriving DecidableEq, Repr

inductive After where
  | tellExpired
  | reportFailed
deriving DecidableEq, Repr

inductive PC where
  | idle
  /-- Past `checkBeginCapacity`. -/
  | admitted (caller : Caller) (connection : Connection) (datasource : String)
  | beginning (caller : Caller) (connection : Connection) (datasource : String) (ttl : Nat)
  | begun (t : Token)
  | looking (c : Call)
  | found (c : Call)
  | expiring (c : Call)
  | waiting (c : Call)
  | missed (c : Call)
  | granted (c : Call)
  | holds (c : Call)
  | running (c : Call)
  /-- A statement failed and released the lock; `fail` comes next. -/
  | failing (c : Call)
  | finishing (c : Call)
  /-- `handle.finish` returned; the targets are a successful commit's. -/
  | returning (c : Call) (committed : Option (List CacheTarget))
  | awaiting (c : Call) (after : After)
deriving DecidableEq, Repr

inductive Event where
  /-- `MarkDirty` returned without an error. -/
  | marked (t : Token) (caller : Caller) (targets : List CacheTarget)
  /-- A statement started in the transaction, a write with what it may change. -/
  | ran (t : Token) (caller : Caller) (targets : List CacheTarget)
  /-- A statement returned its error, as one that rolled the transaction back. -/
  | failed (t : Token) (caller : Caller)
  | committed (t : Token) (caller : Caller) (targets : List CacheTarget)
  /-- A `TransactionEndedError` -/
  | told (t : Token) (caller : Caller) (outcome : Outcome)
  | closed
deriving DecidableEq, Repr

structure Tombstone where
  session : String
  scope : String
  outcome : Outcome
  time : Nat
deriving DecidableEq, Repr

structure State where
  /-- The handles there are or were, and the tokens they were begun under. -/
  handles : Token → Option Handle
  tokens : List Token
  openCount : String → Nat
  byConnection : Connection → Nat
  /-- No bound when 0, as `maxOpen`. -/
  perConnection : Nat
  maxOpen : Nat
  ttl : Nat
  idle : Nat
  closed : Bool
  tombstones : Token → Option Tombstone
  buried : List Token
  now : Nat
  pc : Thread → PC
  log : List Event

def init (ttl maxOpen : Nat) : State where
  handles _ := none
  tokens := []
  openCount _ := 0
  byConnection _ := 0
  perConnection := 0
  maxOpen := maxOpen
  ttl := ttl
  idle := 0
  closed := false
  tombstones _ := none
  buried := []
  now := 0
  pc _ := .idle
  log := []

def State.goto (s : State) (i : Thread) (p : PC) : State := { s with pc := update s.pc i p }

def State.put (s : State) (t : Token) (h : Handle) : State := { s with handles := update s.handles t (some h) }

def State.record (s : State) (e : Event) : State := { s with log := e :: s.log }

/-- `capacityLocked` -/
def State.hasCapacity (s : State) (scope : String) (connection : Connection) : Bool :=
  (s.maxOpen == 0 || s.openCount scope < s.maxOpen) &&
    (s.perConnection == 0 || s.byConnection connection < s.perConnection)

/-- `removeLocked` and `endingLocked`: takes a handle out of the table. -/
def State.take (s : State) (t : Token) (h : Handle) (stage : Stage) : State :=
  { s.put t { h with stage } with
    openCount := update s.openCount h.scope (s.openCount h.scope - 1)
    byConnection := update s.byConnection h.connection (s.byConnection h.connection - 1) }

def State.takeIf (which : Handle → Bool) (outcome : Outcome) (s : State) (t : Token) : State :=
  match s.handles t with
  | some h => if h.stage = .registered ∧ which h then s.take t h (.aborting outcome) else s
  | none => s

/-- `endLocked` on every registered handle that is asked for. -/
def State.takeAll (s : State) (which : Handle → Bool) (outcome : Outcome) : State :=
  s.tokens.foldl (State.takeIf which outcome) s

def tombstoneRetention : Nat := 600000000000
def maxTombstones : Nat := 4096

/-- The loop of `buryLocked`: tombstones too old or too many go, oldest first. -/
def prune (now : Nat) : List Token → (Token → Option Tombstone) → List Token × (Token → Option Tombstone)
  | [], ts => ([], ts)
  | t :: rest, ts =>
    match ts t with
    | some b =>
      if rest.length + 1 ≤ maxTombstones ∧ now - b.time < tombstoneRetention then (t :: rest, ts)
      else prune now rest (update ts t none)
    | none => prune now rest ts

/-- What `endingLocked` returns: records how a handle ended. -/
def State.bury (s : State) (t : Token) (h : Handle) (outcome : Outcome) : State :=
  let (buried, tombstones) := prune s.now (s.buried ++ [t])
    (update s.tombstones t (some ⟨h.session, h.scope, outcome, s.now⟩))
  { s.put t { h with stage := .ended } with buried, tombstones }

/-- `endedError`: the outcome told, none for not found. -/
def State.endedError (s : State) (t : Token) (caller : Caller) : Option Outcome :=
  match s.tombstones t with
  | some b =>
    if s.now - b.time < tombstoneRetention ∧ b.session = caller.session ∧ b.scope = caller.scope then some b.outcome
    else none
  | none => none

def Handle.close (h : Handle) (tx : TxState) (outcome : Outcome) : Handle :=
  { h with closed := true, tx, stage := .burying outcome, endings := h.endings + 1 }

inductive Answer where
  | ok | refused | lost
deriving DecidableEq, Repr

/-- `transactionHandle.finish`, with what a successful commit returns. -/
def Handle.finish (h : Handle) (commit cancelled : Bool) (answer : Answer) : Handle × Option (List CacheTarget) :=
  if h.closed then ({ h with stage := .burying .rolledBack }, none)
  else if cancelled || !commit then (h.close .rolledBack .rolledBack, none)
  else match answer with
    | .ok => (h.close .committed .committed, some h.dirty)
    | .refused => (h.close .rolledBack .rolledBack, none)
    | .lost => (h.close .lost .unknown, none)

def Handle.abort (h : Handle) (outcome : Outcome) : Handle :=
  if h.closed then { h with stage := .burying outcome } else h.close .rolledBack outcome

inductive Action where
  | checkBeginCapacity (i : Thread) (caller : Caller) (connection : Connection) (datasource : String)
  /-- `Begin` reads the lifetime. -/
  | configuration (i : Thread)
  /-- The database began the transaction, under a new token. -/
  | beginTx (i : Thread) (t : Token)
  | beginFails (i : Thread)
  /-- The request was cancelled meanwhile, or no token could be drawn. -/
  | abandon (i : Thread)
  | addHandle (i : Thread)
  | setConnectionLimit (n : Nat)
  | setIdleTimeout (d : Nat)
  | updateLimits (ttl maxOpen : Nat)
  | tick (d : Nat)
  | call (i : Thread) (c : Call)
  | look (i : Thread)
  | check (i : Thread)
  | expire (i : Thread)
  | waited (i : Thread)
  | cancelWait (i : Thread)
  | endedError (i : Thread)
  | proceed (i : Thread)
  | finish (i : Thread) (cancelled : Bool) (answer : Answer)
  | bury (t : Token)
  | return_ (i : Thread)
  | abort (t : Token)
  | settle (i : Thread)
  | expiryTimer (t : Token)
  | checkIdle (t : Token)
  | rollbackSession (session : String)
  | close
  | startStatement (i : Thread) (targets : List CacheTarget)
  | endStatement (i : Thread) (failed : Bool)
  | fail (i : Thread)
  | release (i : Thread)
deriving DecidableEq, Repr

section Steps
variable (s : State)

def stepBeginTx (i : Thread) (t : Token) : Option State :=
  match s.pc i with
  | .beginning caller connection datasource ttl =>
    if t ∈ s.tokens then none
    else
      let h : Handle := {
        connection, session := caller.session, scope := caller.scope, datasource,
        expires := if 0 < ttl then some (s.now + ttl) else none
        idle := 0, dirty := [], closed := false, holder := none, used := 0, stage := .begun
        tx := .opened, endings := 0 }
      some ({ s.put t h with tokens := t :: s.tokens }.goto i (.begun t))
  | _ => none

def State.discard (s : State) (t : Token) (h : Handle) : State := s.put t { h.close .rolledBack .rolledBack with stage := .ended }

def stepAbandon (i : Thread) : Option State :=
  match s.pc i with
  | .begun t =>
    match s.handles t with
    | some h => if h.stage = .begun then some ((s.discard t h).goto i .idle) else none
    | none => none
  | _ => none

def State.register (s : State) (t : Token) (h : Handle) : State :=
  { s.put t { h with stage := .registered, used := s.now, idle := s.idle } with
    openCount := update s.openCount h.scope (s.openCount h.scope + 1)
    byConnection := update s.byConnection h.connection (s.byConnection h.connection + 1) }

/-- `registerHandle` -/
def stepAddHandle (i : Thread) : Option State :=
  match s.pc i with
  | .begun t =>
    match s.handles t with
    | some h =>
      if h.stage ≠ .begun then none
      else if s.closed || !s.hasCapacity h.scope h.connection then some ((s.discard t h).goto i .idle)
      else some ((s.register t h).goto i .idle)
    | none => none
  | _ => none

/-- `lookup` up to reading the tables. -/
def stepLook (i : Thread) : Option State :=
  match s.pc i with
  | .looking c =>
    match s.handles c.token with
    | some h =>
      if h.stage = .registered then some (s.goto i (.found c))
      else if h.isEnding then some (s.goto i (.waiting c))
      else some (s.goto i (.missed c))
    | none => some (s.goto i (.missed c))
  | _ => none

/-- The checks of `lookup` on the handle it found. -/
def stepCheck (i : Thread) : Option State :=
  match s.pc i with
  | .found c =>
    match s.handles c.token with
    | some h =>
      if h.session ≠ c.caller.session ∨ h.scope ≠ c.caller.scope ∨ (c.datasource ≠ "" ∧ h.datasource ≠ c.datasource) then
        some (s.goto i .idle)
      else if !(c.connections.all fun cs => cs.contains h.connection) then some (s.goto i .idle)
      else if h.expires.any (· < s.now) then some (s.goto i (.expiring c))
      else some (s.goto i (.granted c))
    | none => none
  | _ => none

/-- `end`: takes the handle of a call unless another path did, and goes on to `after`. -/
def State.endOr (s : State) (i : Thread) (c : Call) (outcome : Outcome) (after : After) (e : Event) : Option State :=
  match s.handles c.token with
  | some h =>
    if h.stage = .registered then some ((s.take c.token h (.aborting outcome)).goto i (.awaiting c after))
    else some ((s.record e).goto i .idle)
  | none => none

def stepExpire (i : Thread) : Option State :=
  match s.pc i with
  | .expiring c => s.endOr i c .expired .tellExpired (.told c.token c.caller .expired)
  | _ => none

def stepWaited (i : Thread) : Option State :=
  match s.pc i with
  | .waiting c =>
    match s.handles c.token with
    | some h => if h.isEnding then none else some (s.goto i (.missed c))
    | none => none
  | _ => none

def stepEndedError (i : Thread) : Option State :=
  match s.pc i with
  | .missed c =>
    match s.endedError c.token c.caller with
    | some outcome => some ((s.record (.told c.token c.caller outcome)).goto i .idle)
    | none => some (s.goto i .idle)
  | _ => none

def stepProceed (i : Thread) : Option State :=
  match s.pc i with
  | .granted c =>
    match s.handles c.token with
    | some h =>
      match c.purpose with
      | .validate => some (s.goto i .idle)
      | .db => some (s.goto i (.holds c))
      | .markDirty targets =>
        if h.holder.isSome then none
        else if h.closed then some (s.goto i .idle)
        else some (((s.put c.token { h with dirty := h.dirty ++ targets }).record
          (.marked c.token c.caller targets)).goto i .idle)
      | .commit | .rollback =>
        if h.stage = .registered then
          some ((s.take c.token h (.finishing i (c.purpose = .commit))).goto i (.finishing c))
        else some (s.goto i (.looking c))
    | none => none
  | _ => none

def stepFinish (i : Thread) (cancelled : Bool) (answer : Answer) : Option State :=
  match s.pc i with
  | .finishing c =>
    match s.handles c.token with
    | some h =>
      if h.stage = .finishing i (c.purpose = .commit) ∧ h.holder = none then
        let r := h.finish (c.purpose = .commit) cancelled answer
        some ((s.put c.token r.1).goto i (.returning c r.2))
      else none
    | none => none
  | _ => none

def stepBury (t : Token) : Option State :=
  match s.handles t with
  | some h =>
    match h.stage with
    | .burying outcome => some (s.bury t h outcome)
    | _ => none
  | none => none

def stepReturn (i : Thread) : Option State :=
  match s.pc i with
  | .returning c committed =>
    match s.handles c.token with
    | some h =>
      if h.stage ≠ .ended then none
      else match committed with
        | some targets => some ((s.record (.committed c.token c.caller targets)).goto i .idle)
        | none => some (s.goto i .idle)
    | none => none
  | _ => none

def stepAbort (t : Token) : Option State :=
  match s.handles t with
  | some h =>
    match h.stage with
    | .aborting outcome => if h.holder = none then some (s.put t (h.abort outcome)) else none
    | _ => none
  | none => none

def stepSettle (i : Thread) : Option State :=
  match s.pc i with
  | .awaiting c after =>
    match s.handles c.token with
    | some h =>
      if h.stage ≠ .ended then none
      else match after with
        | .tellExpired => some ((s.record (.told c.token c.caller .expired)).goto i .idle)
        | .reportFailed => some ((s.record (.failed c.token c.caller)).goto i .idle)
    | none => none
  | _ => none

def stepTimer (t : Token) (due : Handle → Bool) : Option State :=
  match s.handles t with
  | some h => if h.stage = .registered ∧ due h then some (s.take t h (.aborting .expired)) else none
  | none => none

def stepStart (i : Thread) (targets : List CacheTarget) : Option State :=
  match s.pc i with
  | .holds c =>
    match s.handles c.token with
    | some h =>
      if h.holder.isSome then none
      else if h.closed then some (s.goto i (.holds c))
      -- A write runs once it marked what it may change.
      else if targets ≠ [] ∧ .marked c.token c.caller targets ∉ s.log then none
      else some (((s.put c.token { h with holder := some i, used := s.now }).record
        (.ran c.token c.caller targets)).goto i (.running c))
    | none => none
  | _ => none

def stepEnd (i : Thread) (failed : Bool) : Option State :=
  match s.pc i with
  | .running c =>
    match s.handles c.token with
    | some h =>
      if h.holder ≠ some i then none
      else some ((s.put c.token { h with holder := none, used := s.now }).goto i (if failed then .failing c else .holds c))
    | none => none
  | _ => none

def stepFail (i : Thread) : Option State :=
  match s.pc i with
  | .failing c => s.endOr i c .rolledBack .reportFailed (.failed c.token c.caller)
  | _ => none

def isIdle (now : Nat) (h : Handle) : Bool := 0 < h.idle && h.holder.isNone && h.idle ≤ now - h.used

def step (s : State) : Action → Option State
  | .checkBeginCapacity i caller connection datasource =>
    if s.pc i = .idle ∧ !s.closed ∧ s.hasCapacity caller.scope connection then
      some (s.goto i (.admitted caller connection datasource))
    else none
  | .configuration i =>
    match s.pc i with
    | .admitted caller connection datasource => some (s.goto i (.beginning caller connection datasource s.ttl))
    | _ => none
  | .beginTx i t => stepBeginTx s i t
  | .beginFails i =>
    match s.pc i with
    | .beginning .. => some (s.goto i .idle)
    | _ => none
  | .abandon i => stepAbandon s i
  | .addHandle i => stepAddHandle s i
  | .setConnectionLimit n => some { s with perConnection := n }
  | .setIdleTimeout d => some { s with idle := d }
  | .updateLimits ttl maxOpen => some { s with ttl, maxOpen }
  | .tick d => some { s with now := s.now + d }
  | .call i c => if s.pc i = .idle then some (s.goto i (.looking c)) else none
  | .look i => stepLook s i
  | .check i => stepCheck s i
  | .expire i => stepExpire s i
  | .waited i => stepWaited s i
  | .cancelWait i =>
    match s.pc i with
    | .waiting _ => some (s.goto i .idle)
    | _ => none
  | .endedError i => stepEndedError s i
  | .proceed i => stepProceed s i
  | .finish i cancelled answer => stepFinish s i cancelled answer
  | .bury t => stepBury s t
  | .return_ i => stepReturn s i
  | .abort t => stepAbort s t
  | .settle i => stepSettle s i
  | .expiryTimer t => stepTimer s t fun h => h.expires.any (· ≤ s.now)
  | .checkIdle t => stepTimer s t (isIdle s.now)
  | .rollbackSession session =>
    if session = "" then some s else some (s.takeAll (fun h => h.session = session) .rolledBack)
  | .close =>
    if s.closed then some (s.record .closed)
    else some (({ s with closed := true }.takeAll (fun _ => true) .rolledBack).record .closed)
  | .startStatement i targets => stepStart s i targets
  | .endStatement i failed => stepEnd s i failed
  | .fail i => stepFail s i
  | .release i =>
    match s.pc i with
    | .holds _ => some (s.goto i .idle)
    | _ => none

end Steps

end SqlMcpServer.Transactions
