import SqlMcpServer.Lib.Keyed
import SqlMcpServer.Lib.Except

/-!
# Configuration revisions

`core/revision`: the revision model, what `ImportHistory` accepts, the rollback target and the
state machine of `MemoryStore`.
-/

namespace SqlMcpServer.Revisions

/-- What an `int64` holds of a sum. -/
def int64 (n : Int) : Int := (n + 9223372036854775808) % 18446744073709551616 - 9223372036854775808

def maxInt64 : Int := 9223372036854775807

lemma int64_id {n : Int} (h : 0 ≤ n) (h' : n ≤ maxInt64) : int64 n = n := by
  unfold int64
  unfold maxInt64 at h'
  omega

/-- `time.Time{}`: January 1 of the year 1. -/
def zeroTime : Int := -62135596800000000000

def timestamp (now : Int) : Int := now / 1000 * 1000

abbrev Payload := List UInt8

inductive RevState where
  | draft | published | superseded | rolledBack | discarded
  | unknown (text : String)
deriving DecidableEq, Repr

namespace RevState

def text : RevState → String
  | draft => "draft"
  | published => "published"
  | superseded => "superseded"
  | rolledBack => "rolled-back"
  | discarded => "discarded"
  | unknown s => s

def isUnpublished (s : RevState) : Bool := s = draft || s = discarded

def isValid : RevState → Bool
  | unknown _ => false
  | _ => true

def CanBecome (s s' : RevState) : Prop :=
  s' = s ∨ s = draft ∧ (s' = published ∨ s' = discarded) ∨ s = published ∧ (s' = superseded ∨ s' = rolledBack)

end RevState

structure Revision where
  id : Int
  parentID : Int
  contentHash : String
  payload : Payload
  state : RevState
  author : String
  comment : String
  createdAt : Int
  publishedAt : Int
deriving DecidableEq, Repr

def Revision.zero : Revision := ⟨0, 0, "", [], .unknown "", "", "", zeroTime, zeroTime⟩

def Revision.summary (r : Revision) : Revision := { r with payload := [] }

structure Draft where
  parentID : Int
  payload : Payload
  author : String
  comment : String
deriving DecidableEq, Repr

structure Meta where
  author : String
  comment : String
deriving DecidableEq, Repr

inductive ErrorKind where
  | notFound | noPublished | conflict | invalidState | hashMismatch | noRollback | notEmpty
  | constraint
  | storeCorrupt
deriving DecidableEq, Repr

structure Error where
  kind : ErrorKind
  text : String
deriving DecidableEq, Repr

def notFound (id : Int) : Error := ⟨.notFound, s!"revision: not found: revision {id}"⟩

def onlyDrafts (id : Int) (state : RevState) (what : String) : Error :=
  ⟨.invalidState, "revision: invalid state transition: revision " ++ toString id ++ " is " ++ state.text ++
    ", only drafts can be " ++ what⟩

def noPublished : Error := ⟨.noPublished, "revision: no published revision"⟩

def conflict (expected found : Int) : Error :=
  ⟨.conflict, s!"revision: published revision changed concurrently: expected {expected}, found {found}"⟩

section Hash
variable (hash : Payload → String)

def Revision.verify (r : Revision) : Except Error Unit :=
  if hash r.payload ≠ r.contentHash then
    .error ⟨.hashMismatch, "revision: content hash mismatch: revision " ++ toString r.id ++ " stores " ++
      r.contentHash ++ ", payload hashes to " ++ hash r.payload⟩
  else .ok ()

/-- The loop of `ValidateHistory`, from the IDs seen and the published counted so far. -/
def validateFrom : List Revision → List Int → Nat → Except Error Nat
  | [], _, published => .ok published
  | r :: rest, seen, published =>
    if r.id ≤ 0 ∨ r.id ∈ seen then
      .error ⟨.invalidState, "revision: invalid state transition: invalid or duplicate revision id " ++ toString r.id⟩
    else if !r.state.isValid then
      .error ⟨.invalidState, "revision: invalid state transition: revision " ++ toString r.id ++
        " has unknown state " ++ r.state.text.quote⟩
    else
      match r.verify hash with
      | .error e => .error e
      | .ok () => validateFrom rest (r.id :: seen) (if r.state = .published then published + 1 else published)

def validateHistory (revs : List Revision) : Except Error Unit := do
  let published ← validateFrom hash revs [] 0
  Except.refuseIf (1 < published)
    ⟨.invalidState, s!"revision: invalid state transition: {published} published revisions"⟩

end Hash

/-- `r` is to be chosen over the best so far. -/
def newer (best r : Revision) : Bool :=
  best.id = 0 || best.publishedAt < r.publishedAt || (r.publishedAt = best.publishedAt && best.id < r.id)

def consider (hash : String) (best r : Revision) : Revision :=
  if r.state ≠ .superseded ∨ r.contentHash = hash then best else if newer best r then r else best

def rollbackTarget (revs : List Revision) (current : Revision) (target : Int) : Except Error Revision :=
  if target ≠ 0 then
    match Keyed.find Revision.id target revs with
    | some r =>
      if r.state.isUnpublished then
        .error ⟨.invalidState, "revision: invalid state transition: rollback target " ++ toString target ++ " is " ++
          r.state.text⟩
      else .ok r
    | none => .error ⟨.notFound, s!"revision: not found: rollback target {target}"⟩
  else
    let best := revs.foldl (consider current.contentHash) .zero
    if best.id = 0 then
      .error ⟨.noRollback, "revision: no earlier published revision to roll back to"⟩
    else .ok best

/-- The draft a `Create` writes. -/
def newDraft (hash : Payload → String) (id : Int) (d : Draft) (now : Int) : Revision := {
  id, parentID := d.parentID, contentHash := hash d.payload, payload := d.payload, state := .draft
  author := d.author, comment := d.comment, createdAt := timestamp now, publishedAt := zeroTime }

def rolledBackTo (id : Int) (source : Revision) (now : Int) (who : Meta) : Revision := {
  id, parentID := source.id, contentHash := source.contentHash, payload := source.payload, state := .published
  author := who.author, comment := who.comment, createdAt := timestamp now, publishedAt := timestamp now }

/-- The map by ID is kept as a list; a loop over it may take its elements in any order. -/
structure MemoryStore where
  revs : List Revision
  nextID : Int
  seq : Int
deriving DecidableEq, Repr

namespace MemoryStore

/-- `NewMemoryStore` -/
def empty : MemoryStore := ⟨[], 1, 0⟩

def get? (m : MemoryStore) (id : Int) : Option Revision := Keyed.find Revision.id id m.revs

/-- `m.revs[r.ID] = r` -/
def set (m : MemoryStore) (r : Revision) : MemoryStore := { m with revs := Keyed.set Revision.id r m.revs }

def get (m : MemoryStore) (id : Int) : Except Error Revision :=
  match m.get? id with
  | some r => .ok r
  | none => .error (notFound id)

/-- `publishedLocked` -/
def published? (m : MemoryStore) : Option Revision := m.revs.find? fun r => r.state = .published

def published (m : MemoryStore) : Except Error Revision :=
  match m.published? with
  | some r => .ok r
  | none => .error noPublished

/-- `checkCurrentLocked` -/
def checkCurrent (m : MemoryStore) (expected : Int) : Except Error Revision :=
  let current := m.published?.getD .zero
  if current.id ≠ expected then .error (conflict expected current.id) else .ok current

def create (hash : Payload → String) (now : Int) (d : Draft) (m : MemoryStore) : Except Error Revision × MemoryStore :=
  let r := newDraft hash m.nextID d now
  (.ok r, { m.set r with nextID := m.nextID + 1, seq := m.seq + 1 })

def publish (now : Int) (id expectedCurrent : Int) (m : MemoryStore) : Except Error Revision × MemoryStore :=
  match m.get? id with
  | none => (.error (notFound id), m)
  | some target =>
    if target.state ≠ .draft then (.error (onlyDrafts id target.state "published"), m)
    else
      match m.checkCurrent expectedCurrent with
      | .error e => (.error e, m)
      | .ok current =>
        let m := if current.id ≠ 0 then m.set { current with state := .superseded } else m
        let target := { target with state := .published, publishedAt := timestamp now }
        (.ok target, { m.set target with seq := m.seq + 1 })

def discard (id : Int) (m : MemoryStore) : Except Error Revision × MemoryStore :=
  match m.get? id with
  | none => (.error (notFound id), m)
  | some target =>
    if target.state ≠ .draft then (.error (onlyDrafts id target.state "discarded"), m)
    else
      let target := { target with state := .discarded }
      (.ok target, { m.set target with seq := m.seq + 1 })

def rollback (now : Int) (expectedCurrent target : Int) (who : Meta) (m : MemoryStore) :
    Except Error Revision × MemoryStore :=
  if expectedCurrent = 0 then (.error noPublished, m)
  else
    match m.checkCurrent expectedCurrent with
    | .error e => (.error e, m)
    | .ok current =>
      match rollbackTarget m.revs current target with
      | .error e => (.error e, m)
      | .ok source =>
        let m := m.set { current with state := .rolledBack }
        let r := rolledBackTo m.nextID source now who
        (.ok r, { m.set r with nextID := m.nextID + 1, seq := m.seq + 1 })

/-- One revision of the loop of `ImportHistory`. -/
def importOne (m : MemoryStore) (r : Revision) : MemoryStore :=
  { m.set r with nextID := if m.nextID ≤ r.id then int64 (r.id + 1) else m.nextID }

def importHistory (hash : Payload → String) (revs : List Revision) (m : MemoryStore) : Except Error Unit × MemoryStore :=
  match validateHistory hash revs with
  | .error e => (.error e, m)
  | .ok () =>
    if m.revs ≠ [] then (.error ⟨.notEmpty, "revision: store is not empty"⟩, m)
    else
      let m := revs.foldl importOne m
      (.ok (), { m with seq := m.seq + 1 })

end MemoryStore

inductive Op where
  | create (d : Draft)
  | publish (id expectedCurrent : Int)
  | discard (id : Int)
  | rollback (expectedCurrent target : Int) (who : Meta)
  | importHistory (revs : List Revision)
deriving DecidableEq, Repr

def MemoryStore.apply (hash : Payload → String) (now : Int) (op : Op) (m : MemoryStore) :
    Except Error (Option Revision) × MemoryStore :=
  match op with
  | .create d => (m.create hash now d).map (·.map some) id
  | .publish id expected => (m.publish now id expected).map (·.map some) fun m => m
  | .discard id => (m.discard id).map (·.map some) fun m => m
  | .rollback expected target who => (m.rollback now expected target who).map (·.map some) id
  | .importHistory revs => (m.importHistory hash revs).map (·.map fun _ => none) id

end SqlMcpServer.Revisions
