import SqlMcpServer.Revision
import Mathlib.Data.List.Sort

/-!
# The revision store in SQL

`configstore.SQLStore` over its tables. Each operation is one transaction: what it did is
undone when it fails. The tables hold integers and texts as they are given; times are kept
in microseconds, with 0 for none.
-/

namespace SqlMcpServer.Revisions

def toMicros (t : Int) : Int := if t = zeroTime then 0 else t / 1000

def fromMicros (us : Int) : Int := if us = 0 then zeroTime else us * 1000

structure RevisionRow where
  id : Int
  parentID : Int
  contentHash : String
  payload : Payload
  state : RevState
  author : String
  commentText : String
  createdUs : Int
  publishedUs : Int
deriving DecidableEq, Repr

def rowOf (r : Revision) : RevisionRow :=
  ⟨r.id, r.parentID, r.contentHash, r.payload, r.state, r.author, r.comment, toMicros r.createdAt, toMicros r.publishedAt⟩

def scanRevision (row : RevisionRow) : Revision :=
  ⟨row.id, row.parentID, row.contentHash, row.payload, row.state, row.author, row.commentText,
    fromMicros row.createdUs, fromMicros row.publishedUs⟩

structure Tables where
  rows : List RevisionRow
  nextID : Int
  publishLock : Int
  revisionSeq : Int
deriving DecidableEq, Repr

namespace Tables

def empty : Tables := ⟨[], 1, 0, 0⟩

def constrained (rows : List RevisionRow) : Except Error (List RevisionRow) :=
  if ¬ (rows.map RevisionRow.id).Nodup ∨ 1 < rows.countP fun row => row.state = .published then
    .error ⟨.constraint, "unique constraint failed"⟩
  else .ok rows

def insert (t : Tables) (r : Revision) : Except Error Tables := do
  let rows ← constrained (t.rows ++ [rowOf r])
  .ok { t with rows }

def get (t : Tables) (id : Int) : Except Error Revision :=
  match Keyed.find RevisionRow.id id t.rows with
  | some row => .ok (scanRevision row)
  | none => .error (notFound id)

/-- `list` without a limit -/
def list (t : Tables) : List Revision :=
  (t.rows.insertionSort fun a b => b.id ≤ a.id).map fun row => (scanRevision row).summary

def published (t : Tables) : Option Revision := (t.rows.find? fun row => row.state = .published).map scanRevision

/-- `currentLocked` -/
def current (t : Tables) (expected : Int) : Except Error Revision :=
  let current := t.published.getD .zero
  if current.id ≠ expected then .error (conflict expected current.id) else .ok current

/-- `setState`, which keeps the publish time there is when given the zero time. -/
def setState (t : Tables) (id : Int) (state : RevState) (publishedAt : Int) : Except Error Tables := do
  let rows ← constrained (Keyed.update RevisionRow.id id (fun row =>
    if publishedAt = zeroTime then { row with state }
    else { row with state, publishedUs := toMicros publishedAt }) t.rows)
  Except.refuseIf ((t.rows.countP fun row => row.id = id) ≠ 1)
    ⟨.storeCorrupt, "revision " ++ toString id ++ ": rows changed, want 1"⟩
  .ok { t with rows }

def supersede (t : Tables) (current : Int) : Except Error Tables :=
  if current ≠ 0 then t.setState current .superseded zeroTime else .ok t

/-- `lockedRevisions`: the counters a write other than a create adds to first. -/
def locked (t : Tables) : Tables := { t with publishLock := t.publishLock + 1, revisionSeq := t.revisionSeq + 1 }

def withTx (t : Tables) (result : Except Error (α × Tables)) : Except Error α × Tables :=
  match result with
  | .ok (a, t') => (.ok a, t')
  | .error e => (.error e, t)

def create (hash : Payload → String) (now : Int) (d : Draft) (t : Tables) : Except Error Revision × Tables :=
  t.withTx do
    -- `allocateID`
    let t := { t with nextID := t.nextID + 1 }
    let r := newDraft hash (t.nextID - 1) d now
    let t ← t.insert r
    .ok (r, t)

def publish (now : Int) (id expectedCurrent : Int) (t : Tables) : Except Error Revision × Tables :=
  t.withTx do
    let t := t.locked
    let target ← t.get id
    Except.refuseIf (target.state ≠ .draft) (onlyDrafts id target.state "published")
    let current ← t.current expectedCurrent
    let t ← t.supersede current.id
    let target := { target with state := .published, publishedAt := timestamp now }
    let t ← t.setState id target.state target.publishedAt
    .ok (target, t)

def discard (id : Int) (t : Tables) : Except Error Revision × Tables :=
  t.withTx do
    let t := t.locked
    let target ← t.get id
    Except.refuseIf (target.state ≠ .draft) (onlyDrafts id target.state "discarded")
    let target := { target with state := .discarded }
    let t ← t.setState id target.state zeroTime
    .ok (target, t)

def rollback (now : Int) (expectedCurrent target : Int) (who : Meta) (t : Tables) : Except Error Revision × Tables :=
  if expectedCurrent = 0 then (.error noPublished, t)
  else
    t.withTx do
      let t := t.locked
      let current ← t.current expectedCurrent
      let chosen ← rollbackTarget t.list current target
      let source ← t.get chosen.id
      let t ← t.setState current.id .rolledBack zeroTime
      let t := { t with nextID := t.nextID + 1 }
      let r := rolledBackTo (t.nextID - 1) source now who
      let t ← t.insert r
      .ok (r, t)

def importHistory (hash : Payload → String) (revs : List Revision) (t : Tables) : Except Error Unit × Tables :=
  match validateHistory hash revs with
  | .error e => (.error e, t)
  | .ok () =>
    t.withTx do
      let t := t.locked
      Except.refuseIf (0 < t.rows.length) ⟨.notEmpty, "revision: store is not empty"⟩
      let t ← revs.foldlM insert t
      let maxID := revs.foldl (fun n r => max n r.id) 0
      .ok ((), { t with nextID := int64 (maxID + 1) })

def sequence (t : Tables) : Int := t.nextID + t.revisionSeq

def apply (hash : Payload → String) (now : Int) (op : Op) (t : Tables) : Except Error (Option Revision) × Tables :=
  match op with
  | .create d => (t.create hash now d).map (·.map some) id
  | .publish id expected => (t.publish now id expected).map (·.map some) fun t => t
  | .discard id => (t.discard id).map (·.map some) fun t => t
  | .rollback expected target who => (t.rollback now expected target who).map (·.map some) id
  | .importHistory revs => (t.importHistory hash revs).map (·.map fun _ => none) id

end Tables

end SqlMcpServer.Revisions
