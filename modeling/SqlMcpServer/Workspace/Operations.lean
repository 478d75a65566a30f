import SqlMcpServer.Revision.Operations
import SqlMcpServer.Workspace.Service

/-!
# Workspace operations

`workspaceops.Service` over a history and the workspace of one user, by any number of consoles
at once.
-/

namespace SqlMcpServer.Workspaces

open SqlMcpServer.Revisions (Revision Payload MemoryStore Op Caller)

structure CommitRequest where
  version : Int
  expectedPublished : Int
  comment : String
deriving DecidableEq, Repr

/-- A change, with what its operation read before. -/
inductive Change where
  | writeItems (op : LogOp) (writes : List Write) (note : Option Note)
  | update (to_ : Int) (next : Snapshot)
  | reset (to_ : Int) (next : Snapshot)
  | resolve (conflict : Nat) (theirs : Bool)
  | mergeDraft (draft : Revision) (from_ published : Int) (fromItems draftItems onto : Snapshot)
  | load (rev : Revision) (content : Snapshot) (keep : Bool) (published : Int) (onto : Snapshot)
  | checkpoint (draft builtVersion builtBase : Int)
  | moveAfterCommit (snap : Workspace) (published : Int) (next : Snapshot) (committed : List Ref)
deriving DecidableEq

def Change.run (svc : Service) (id : Nat) (w : Workspace) (base : Snapshot) : Change → Outcome
  | .writeItems op writes note => svc.writeItems op writes note id w base
  | .update to_ next => svc.update to_ next id w base
  | .reset to_ next => svc.reset to_ next w base
  | .resolve conflict theirs => svc.resolve conflict theirs w base
  | .mergeDraft draft _ published fromItems draftItems onto => svc.mergeDraft draft published fromItems draftItems onto id w base
  | .load rev content keep published onto => svc.load rev content keep published onto id w base
  | .checkpoint draft builtVersion builtBase => Service.checkpoint draft builtVersion builtBase w
  | .moveAfterCommit snap published next committed => svc.moveAfterCommit snap published next committed id w

inductive Save where
  | checkpoint (comment : String)
  | commit (req : CommitRequest)
deriving DecidableEq, Repr

def Save.comment : Save → String
  | .checkpoint comment => comment
  | .commit req => req.comment

/-- What a workspace is loaded for: a change, at an attempt to write it within an attempt of
its operation, or a save. -/
inductive Why where
  | apply (change : Change) (attempt outer : Nat)
  | save (save : Save)
deriving DecidableEq

/-- Where a call is: what it reads or writes next. -/
inductive Stage where
  /-- `Update` and `Reset`: the revision moved onto. -/
  | getTarget (to_ : Int) (reset : Bool)
  /-- `MergeDraft`: the draft, then the revisions it builds on, the published one and the one
  it builds on. -/
  | getDraft (id : Int)
  | basedOn (d rev : Revision) (seen : List Int)
  | mergeOnto (d : Revision) (from_ : Int) (outer : Nat)
  | mergeFrom (d : Revision) (from_ published : Int) (draftItems onto : Snapshot) (outer : Nat)
  /-- `Load`: the revision, then the published one. -/
  | getRevision (to_ : Int) (keep : Bool)
  | loadOnto (rev : Revision) (content : Snapshot) (keep : Bool) (outer : Nat)
  | loadItems (rev : Revision) (content : Snapshot) (keep : Bool) (published : Int) (outer : Nat)
  /-- `load`: the workspace, or the published revision when none is kept, then its base. -/
  | readWorkspace (why : Why)
  | readPublished (why : Why)
  | readBase (why : Why) (w : Option Workspace) (id : Int)
  | put (change : Change) (attempt outer : Nat) (w : Workspace) (base : Snapshot)
  /-- `Commit`: whether what is published is what was expected. -/
  | expect (req : CommitRequest) (snap : Workspace) (base : Snapshot)
  /-- `build`: the base, then the draft. -/
  | build (save : Save) (snap : Workspace) (base : Snapshot)
  | create (save : Save) (snap : Workspace) (base : Snapshot) (payload : Payload)
  | publish (req : CommitRequest) (snap : Workspace) (base : Snapshot) (draft : Int)
  | discard (ids : List Int)
deriving DecidableEq

inductive Call where
  | writeItems (op : LogOp) (writes : List Write) (note : Option Note)
  | update (to_ : Int)
  | reset (to_ : Int)
  | resolve (conflict : Nat) (theirs : Bool)
  | mergeDraft (draft : Int)
  | load (to_ : Int) (keep : Bool)
  | checkpoint (comment : String)
  | commit (req : CommitRequest)
deriving DecidableEq

/-- How often an operation reads again when another write came between. -/
def attempts : Nat := 5

def Call.start : Call → Stage
  | .writeItems op writes note => .readWorkspace (.apply (.writeItems op writes note) 0 0)
  | .update to_ => .getTarget to_ false
  | .reset to_ => .getTarget to_ true
  | .resolve conflict theirs => .readWorkspace (.apply (.resolve conflict theirs) 0 0)
  | .mergeDraft draft => .getDraft draft
  | .load to_ keep => .getRevision to_ keep
  | .checkpoint comment => .readWorkspace (.save (.checkpoint comment))
  | .commit req => .readWorkspace (.save (.commit req))

/-- What a call does once its change of `w` is written. -/
def Change.done (w : Workspace) : Change → Option Stage
  | .checkpoint _ _ _ => if w.checkpoint ≠ 0 then some (.discard [w.checkpoint]) else none
  | .moveAfterCommit snap published _ _ =>
    some (.discard ((snap.taken ++ [snap.checkpoint]).filter fun id => id ≠ 0 ∧ id ≠ published))
  | _ => none

def Change.failed (e : OpError) (outer : Nat) : Change → Option Stage
  | .mergeDraft d from_ _ _ _ _ =>
    if e = .publishedMoved ∧ outer + 1 < attempts then some (.mergeOnto d from_ (outer + 1)) else none
  | .load rev content keep _ _ =>
    if e = .publishedMoved ∧ outer + 1 < attempts then some (.loadOnto rev content keep (outer + 1)) else none
  | .checkpoint draft _ _ => some (.discard [draft])
  | _ => none

/-- A step of a call: it only reads, or it also changes a store. -/
inductive Effect where
  | goto (next : Option Stage)
  | history (op : Op) (next : Option Revision → Option Stage)
  | publish (req : CommitRequest) (snap : Workspace) (draft : Int) (next : Revision → Option Stage)
  | put (w : Workspace) (expected : Int) (entry : LogEntry) (done changed : Option Stage)

def Workspace.unwritten (base : Int) (items : Snapshot) : Workspace := ⟨base, items, [], [], [], 0, 0, 0, ""⟩

namespace Stage
variable (svc : Service)

def items (m : MemoryStore) (id : Int) : Option Snapshot := (m.get? id).bind svc.itemsOf

def publishedItems (m : MemoryStore) (id : Int) : Option Snapshot :=
  ((m.get? id).filter fun rev => ¬ rev.state.isUnpublished).bind svc.itemsOf

def unloaded (e : OpError) : Why → Option Stage
  | .apply change _ outer => change.failed e outer
  | .save _ => none

def loaded (w : Workspace) (base : Snapshot) : Why → Option Stage
  | .apply change attempt outer => some (.put change attempt outer w base)
  | .save (.checkpoint comment) =>
    if svc.schema.openConflicts w.items base w.conflicts ≠ [] then none else some (.build (.checkpoint comment) w base)
  | .save (.commit req) =>
    if w.version ≠ req.version ∨ svc.schema.openConflicts w.items base w.conflicts ≠ [] ∨ w.base ≠ req.expectedPublished then none
    else some (.expect req w base)

def saved (snap : Workspace) (base : Snapshot) (draft : Revision) : Save → Stage
  | .checkpoint _ => .readWorkspace (.apply (.checkpoint draft.id snap.version snap.base) 0 0)
  | .commit req => .publish req snap base draft.id

def committed (snap : Workspace) (base : Snapshot) (published : Revision) : Option Stage :=
  (svc.itemsOf published).map fun next =>
    .readWorkspace (.apply (.moveAfterCommit snap published.id next (svc.schema.changes base snap.items)) 0 0)

section
variable (id : Nat) (who : String) (m : MemoryStore) (stored : Option Workspace)

def write (change : Change) (attempt outer : Nat) (w : Workspace) (base : Snapshot) : Effect :=
  match change.run svc id w base with
  | .unchanged => .goto (change.done w)
  | .failed e => .goto (change.failed e outer)
  | .write w' entry =>
    .put { w' with updatedBy := who } w.version { entry with writer := who } (change.done w)
      (if attempt + 1 < attempts then some (.readWorkspace (.apply change (attempt + 1) outer)) else change.failed .changed outer)

/-- One step of a call: `id` numbers the conflicts it finds. -/
def turn : Stage → Effect
  | .getTarget to_ reset =>
    .goto ((publishedItems svc m to_).map fun next =>
      .readWorkspace (.apply (if reset then .reset to_ next else .update to_ next) 0 0))
  | .getDraft draft => .goto ((m.get? draft).map fun d => .basedOn d d [])
  | .basedOn d rev seen =>
    if rev.state.isUnpublished then
      if rev.parentID = 0 ∨ rev.parentID ∈ seen then .goto (some (.mergeOnto d 0 0))
      else .goto ((m.get? rev.parentID).map fun parent => .basedOn d parent (rev.parentID :: seen))
    else .goto (some (.mergeOnto d rev.id 0))
  | .mergeOnto d from_ outer =>
    .goto (m.published?.bind fun published => (svc.itemsOf d).bind fun draftItems => (svc.itemsOf published).map fun onto =>
      .mergeFrom d from_ published.id draftItems onto outer)
  | .mergeFrom d from_ published draftItems onto outer =>
    .goto ((items svc m from_).map fun fromItems =>
      .readWorkspace (.apply (.mergeDraft d from_ published fromItems draftItems onto) 0 outer))
  | .getRevision to_ keep =>
    .goto ((m.get? to_).bind fun rev => (svc.itemsOf rev).map fun content => .loadOnto rev content keep 0)
  | .loadOnto rev content keep outer =>
    .goto (m.published?.map fun published => .loadItems rev content keep published.id outer)
  | .loadItems rev content keep published outer =>
    .goto ((publishedItems svc m published).map fun onto => .readWorkspace (.apply (.load rev content keep published onto) 0 outer))
  | .readWorkspace why =>
    .goto (some (match stored with
      | some w => .readBase why (some w) w.base
      | none => .readPublished why))
  | .readPublished why =>
    .goto (match m.published? with
      | some rev => some (.readBase why none rev.id)
      | none => unloaded .nothingPublished why)
  | .readBase why w baseID =>
    .goto (match items svc m baseID with
      | some items => loaded svc (w.getD (.unwritten baseID items)) items why
      | none => unloaded .other why)
  | .put change attempt outer w base => write svc id who change attempt outer w base
  | .expect req snap base =>
    .goto ((m.published?.filter fun now => now.id = req.expectedPublished).map fun _ => .build (.commit req) snap base)
  | .build save snap base =>
    .goto (((m.get? snap.base).bind fun rev => svc.build rev snap.items).map fun payload => .create save snap base payload)
  | .create save snap base payload =>
    .history (.create ⟨snap.base, payload, who, save.comment⟩) fun draft => draft.map fun draft => saved snap base draft save
  | .publish req snap base draft => .publish req snap draft (committed svc snap base)
  | .discard [] => .goto none
  | .discard (id :: ids) => .history (.discard id) fun _ => some (.discard ids)

end

/-- What follows an error of a store. -/
def fail : Stage → Option Stage
  | .readWorkspace why => unloaded .other why
  | .readPublished why => unloaded .other why
  | .readBase why _ _ => unloaded .other why
  | .put change _ outer _ _ => change.failed .other outer
  | .publish _ _ _ draft => some (.discard [draft])
  | .discard (_ :: ids) => some (.discard ids)
  | _ => none

end Stage

structure Task where
  who : String
  stage : Stage

/-- A revision a workspace was published as, and the one it replaced. -/
structure Commit where
  req : CommitRequest
  snap : Workspace
  published : Revision
  replaced : Int

/-- The stores, and the calls. `versions` and `commits` record what was written; nothing reads
them. -/
structure State where
  history : MemoryStore
  stored : Option Workspace
  log : List LogEntry
  versions : List Workspace
  commits : List Commit
  pc : Caller → Option Task

namespace State

def init (m : MemoryStore) : State := ⟨m, none, [], [], [], fun _ => none⟩

def goto (s : State) (i : Caller) (who : String) (next : Option Stage) : State :=
  { s with pc := Function.update s.pc i (next.map (Task.mk who)) }

def version (s : State) : Int := (s.stored.map Workspace.version).getD 0

/-- `PutWorkspace`; `none` when the workspace is at another version than expected. -/
def put (s : State) (w : Workspace) (expected : Int) (entry : LogEntry) : Option State :=
  if s.version ≠ expected then none
  else
    let w := { w with version := expected + 1 }
    some { s with stored := some w, log := { entry with version := w.version } :: s.log, versions := w :: s.versions }

section
variable (hash : Payload → String) (now : Int) (s : State) (i : Caller) (who : String)

def perform : Effect → State
  | .goto next => s.goto i who next
  | .history op next =>
    let r := s.history.apply hash now op
    { s with history := r.2 }.goto i who (match r.1 with
      | .ok rev => next rev
      | .error _ => next none)
  | .publish req snap draft next =>
    match s.history.publish now draft req.expectedPublished with
    | (.ok rev, m) => { s with history := m, commits := ⟨req, snap, rev, s.history.publishedID⟩ :: s.commits }.goto i who (next rev)
    | (.error _, m) => { s with history := m }.goto i who (some (.discard [draft]))
  | .put w expected entry done changed =>
    match s.put w expected entry with
    | some s' => s'.goto i who done
    | none => s.goto i who changed

end

end State

inductive Action where
  | call (i : Caller) (who : String) (c : Call)
  | turn (i : Caller) (now : Int) (id : Nat)
  | fail (i : Caller)
  /-- An operation on the history by someone else. -/
  | elsewhere (now : Int) (op : Op)

def State.step (svc : Service) (hash : Payload → String) (s : State) : Action → Option State
  | .call i who c => if (s.pc i).isNone then some (s.goto i who (some c.start)) else none
  | .turn i now id =>
    (s.pc i).map fun t => s.perform hash now i t.who (t.stage.turn svc id t.who s.history s.stored)
  | .fail i => (s.pc i).map fun t => s.goto i t.who t.stage.fail
  | .elsewhere now op =>
    match op with
    | .importHistory _ => none
    | op => some { s with history := (s.history.apply hash now op).2 }

/-- Configurations of the role, and the payloads they are stored as. -/
def described : List (Payload × Snapshot) := [([1], roleItems "x"), ([2], roleItems "y"), ([3], roleItems "z")]

def roleService : Service := { plainService with
  itemsOf := fun rev => described.lookup rev.payload
  build := fun _ items => (described.find? fun c => c.2 = items).map Prod.fst }

def publishElsewhere (payload : Payload) (id published : Int) : List Action :=
  [.elsewhere 0 (.create ⟨published, payload, "", ""⟩), .elsewhere 0 (.publish id published)]

def inTurn (i : Caller) (c : Call) (steps : Nat) : List Action := .call i "root" c :: List.replicate steps (.turn i 0 0)

end SqlMcpServer.Workspaces
