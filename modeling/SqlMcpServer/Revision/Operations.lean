import SqlMcpServer.Revision
import SqlMcpServer.Lib.Transition
import Mathlib.Logic.Function.Basic

/-!
# Revision operations

`revisionops.Service` over a store, by any number of callers at once. Each operation of the
store is one step; between two steps of a call any other call may take its own.
-/

namespace SqlMcpServer.Revisions

abbrev Caller := Nat

structure DraftRequest where
  payload : Payload
  /-- The revision the draft builds on; 0 means the published one. -/
  parent : Int
  author : String
  comment : String
  skipIfPublished : Bool
deriving DecidableEq, Repr

structure PublishRequest where
  id : Int
  restartRequired : Bool
  expectedPublished : Option Int
  author : String
deriving DecidableEq, Repr

structure RollbackRequest where
  to_ : Int
  restartRequired : Bool
  author : String
  comment : String
deriving DecidableEq, Repr

inductive OpPC where
  | idle
  | drafting (req : DraftRequest)
  /-- Read what is published; the draft is created next. -/
  | creating (req : DraftRequest) (parent : Int)
  | publishing (req : PublishRequest)
  | gotTarget (req : PublishRequest) (target : Revision)
  /-- `BasedOn`, at a revision, having gone through some. -/
  | walking (req : PublishRequest) (target current rev : Revision) (seen : List Int)
  /-- Checked; the store's publish is next. -/
  | readyToPublish (req : PublishRequest) (target current : Revision)
  | rolling (req : RollbackRequest)
  | gotCurrent (req : RollbackRequest) (current : Revision)
  | chose (req : RollbackRequest) (current chosen : Revision)
  | readyToRollback (req : RollbackRequest) (current target : Revision)
deriving DecidableEq, Repr

inductive PublishEvent where
  | publish (id replaced : Int)
  | rollback (id replaced : Int)
deriving DecidableEq, Repr

structure OpState where
  store : MemoryStore
  pc : Caller → OpPC
  log : List PublishEvent

def OpState.init : OpState := ⟨.empty, fun _ => .idle, []⟩

def MemoryStore.publishedID (m : MemoryStore) : Int := (m.published?.getD .zero).id

namespace OpState

def goto (s : OpState) (i : Caller) (p : OpPC) : OpState := { s with pc := Function.update s.pc i p }

def record (s : OpState) (e : PublishEvent) : OpState := { s with log := e :: s.log }

end OpState

inductive OpAction where
  | draft (i : Caller) (req : DraftRequest)
  | readForDraft (i : Caller)
  | create (i : Caller) (now : Int)
  | publish (i : Caller) (req : PublishRequest)
  | getTarget (i : Caller)
  | readForPublish (i : Caller)
  | walk (i : Caller)
  | storePublish (i : Caller) (now : Int)
  | rollback (i : Caller) (req : RollbackRequest)
  | readForRollback (i : Caller)
  | listForRollback (i : Caller)
  | getChosen (i : Caller)
  | storeRollback (i : Caller) (now : Int)
  | discard (id : Int)
  /-- A call ends with an error of the store. -/
  | fail (i : Caller)
deriving DecidableEq, Repr

section
variable (hash : Payload → String) (checkPublishable : Revision → Revision → Bool → Bool) (s : OpState)

/-- Past `BasedOn`. -/
def afterWalk (i : Caller) (req : PublishRequest) (target current : Revision) (basedOn : Int) : OpState :=
  if current.id ≠ 0 ∧ basedOn ≠ current.id then s.goto i .idle
  else if checkPublishable current target req.restartRequired then s.goto i (.readyToPublish req target current)
  else s.goto i .idle

def stepReadForDraft (i : Caller) : Option OpState :=
  match s.pc i with
  | .drafting req =>
    let current := s.store.published?.getD .zero
    if req.skipIfPublished ∧ current.id ≠ 0 ∧ current.contentHash = hash req.payload then some (s.goto i .idle)
    else some (s.goto i (.creating req (if req.parent = 0 then current.id else req.parent)))
  | _ => none

def stepCreate (i : Caller) (now : Int) : Option OpState :=
  match s.pc i with
  | .creating req parent =>
    some ({ s with store := (s.store.create hash now ⟨parent, req.payload, req.author, req.comment⟩).2 }.goto i .idle)
  | _ => none

def stepGetTarget (i : Caller) : Option OpState :=
  match s.pc i with
  | .publishing req =>
    match s.store.get req.id with
    | .ok target => some (s.goto i (.gotTarget req target))
    | .error _ => some (s.goto i .idle)
  | _ => none

def stepReadForPublish (i : Caller) : Option OpState :=
  match s.pc i with
  | .gotTarget req target =>
    let current := s.store.published?.getD .zero
    if req.expectedPublished.any (· ≠ current.id) then some (s.goto i .idle)
    else some (s.goto i (.walking req target current target []))
  | _ => none

/-- One turn of the loop of `BasedOn`. -/
def stepWalk (i : Caller) : Option OpState :=
  match s.pc i with
  | .walking req target current rev seen =>
    if rev.state.isUnpublished then
      if rev.parentID = 0 ∨ rev.parentID ∈ seen then some (afterWalk checkPublishable s i req target current 0)
      else
        match s.store.get rev.parentID with
        | .ok parent => some (s.goto i (.walking req target current parent (rev.parentID :: seen)))
        | .error _ => some (s.goto i .idle)
    else some (afterWalk checkPublishable s i req target current rev.id)
  | _ => none

def stepStorePublish (i : Caller) (now : Int) : Option OpState :=
  match s.pc i with
  | .readyToPublish _ target current =>
    match s.store.publish now target.id current.id with
    | (.ok rev, store) => some (({ s with store }.record (.publish rev.id s.store.publishedID)).goto i .idle)
    | (.error _, store) => some ({ s with store }.goto i .idle)
  | _ => none

def stepReadForRollback (i : Caller) : Option OpState :=
  match s.pc i with
  | .rolling req =>
    match s.store.published with
    | .ok current => some (s.goto i (.gotCurrent req current))
    | .error _ => some (s.goto i .idle)
  | _ => none

def stepListForRollback (i : Caller) : Option OpState :=
  match s.pc i with
  | .gotCurrent req current =>
    match rollbackTarget (s.store.revs.map Revision.summary) current req.to_ with
    | .ok chosen => some (s.goto i (.chose req current chosen))
    | .error _ => some (s.goto i .idle)
  | _ => none

def stepGetChosen (i : Caller) : Option OpState :=
  match s.pc i with
  | .chose req current chosen =>
    match s.store.get chosen.id with
    | .ok target =>
      if checkPublishable current target req.restartRequired then some (s.goto i (.readyToRollback req current target))
      else some (s.goto i .idle)
    | .error _ => some (s.goto i .idle)
  | _ => none

def stepStoreRollback (i : Caller) (now : Int) : Option OpState :=
  match s.pc i with
  | .readyToRollback req current target =>
    match s.store.rollback now current.id target.id ⟨req.author, req.comment⟩ with
    | (.ok rev, store) => some (({ s with store }.record (.rollback rev.id s.store.publishedID)).goto i .idle)
    | (.error _, store) => some ({ s with store }.goto i .idle)
  | _ => none

def OpState.step (s : OpState) : OpAction → Option OpState
  | .draft i req =>
    -- A draft names a revision there is, or none.
    if s.pc i = .idle ∧ (req.parent = 0 ∨ (s.store.get? req.parent).isSome) then some (s.goto i (.drafting req)) else none
  | .readForDraft i => stepReadForDraft hash s i
  | .create i now => stepCreate hash s i now
  | .publish i req => if s.pc i = .idle then some (s.goto i (.publishing req)) else none
  | .getTarget i => stepGetTarget s i
  | .readForPublish i => stepReadForPublish s i
  | .walk i => stepWalk checkPublishable s i
  | .storePublish i now => stepStorePublish s i now
  | .rollback i req => if s.pc i = .idle then some (s.goto i (.rolling req)) else none
  | .readForRollback i => stepReadForRollback s i
  | .listForRollback i => stepListForRollback s i
  | .getChosen i => stepGetChosen checkPublishable s i
  | .storeRollback i now => stepStoreRollback s i now
  | .discard id => some { s with store := (s.store.discard id).2 }
  | .fail i => some (s.goto i .idle)

end

end SqlMcpServer.Revisions
