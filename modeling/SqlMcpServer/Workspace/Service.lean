import SqlMcpServer.Revision
import SqlMcpServer.Workspace.Conflicts

/-!
# What workspace operations write

`workspaceops`: the change each operation makes to a workspace it read.
-/

namespace SqlMcpServer.Workspaces

open SqlMcpServer.Revisions (Revision Payload)

structure Note where
  source : String
  writer : String
  text : String
deriving DecidableEq, Repr

/-- An administrator's workspace, its items filled in. -/
structure Workspace where
  base : Int
  items : Snapshot
  conflicts : List Conflict
  notes : List Note
  taken : List Int
  /-- The draft last saved from it, at version `checkpointAt`. -/
  checkpoint : Int
  checkpointAt : Int
  version : Int
  updatedBy : String
deriving DecidableEq

inductive LogOp where
  | edit | apply | update | merge | resolve | reset | load | commit | checkpoint
deriving DecidableEq, Repr

structure LogEntry where
  version : Int
  writer : String
  op : LogOp
  items : List Ref
  note : String
deriving DecidableEq, Repr

inductive OpError where
  | conflicts
  | nothingPublished
  | neverPublished (id : Int)
  | behind
  | noConflict
  | unplaceable
  | renameAlone (from_ : Ref)
  | changed
  | publishedMoved
  /-- An error of the codec, the reconciler or a store. -/
  | other
deriving DecidableEq, Repr

/-- What a change does: nothing, an error, or a workspace to write with what to log. -/
inductive Outcome where
  | unchanged
  | failed (e : OpError)
  | write (w : Workspace) (entry : LogEntry)

/-- What the service is made with: the merge rules, the codec and what keeps items
consistent with each other. -/
structure Service where
  schema : Schema
  /-- A revision's configuration as items. -/
  itemsOf : Revision → Option Snapshot
  /-- The payload items make on a base. -/
  build : Revision → Snapshot → Option Payload
  /-- From what a write changes and its renames; `none` of it is an error. -/
  reconcile : Option (Snapshot → Snapshot → (Ref → Option Ref) → Option Snapshot)

def idOf (id : Int) : String := toString id

structure Write where
  ref : Ref
  value : Option Value
  previous : Option Value
  from_ : Option Ref
deriving DecidableEq, Repr

def Write.renamed (wr : Write) : Option Ref := wr.from_.filter fun f => f ≠ wr.ref

structure BatchState where
  values : Ref → Option (Option Value)
  refs : List Ref
  renames : Ref → Option Ref
  /-- How many writes of a ref are still to come. -/
  later : Ref → Nat
  found : List (Ref × ValueConflict)

namespace BatchState

def start (writes : List Write) : BatchState where
  values _ := none
  refs := []
  renames _ := none
  later ref := writes.countP fun wr => wr.ref = ref
  found := []

def current (before : Snapshot) (b : BatchState) (ref : Ref) : Option Value := (b.values ref).getD (before.get ref)

def put (b : BatchState) (ref : Ref) (v : Option Value) : BatchState :=
  { b with values := Function.update b.values ref (some v), refs := b.refs ++ [ref] }

def renameTo (b : BatchState) (to_ from_ : Ref) : BatchState :=
  { b with renames := Function.update b.renames to_ (some from_) }

def moveOn (b : BatchState) (to_ from_ : Ref) : BatchState :=
  match b.renames from_ with
  | some origin => { b with renames := Function.update (Function.update b.renames to_ (some origin)) from_ none }
  | none => b

def rename (before : Snapshot) (written : Ref → Bool) (b : BatchState) (to_ from_ : Ref) : BatchState :=
  if before.get from_ ≠ none then
    let b := b.renameTo to_ from_
    if written from_ ∨ b.current before from_ = none then b else b.put from_ none
  else if b.current before from_ ≠ none then
    let b := b.moveOn to_ from_
    if b.later from_ > 0 then b else b.put from_ none
  else b

def write (s : Schema) (before : Snapshot) (written : Ref → Bool) (b : BatchState) (wr : Write) : BatchState :=
  let b := { b with later := Function.update b.later wr.ref (b.later wr.ref - 1) }
  let b := match wr.renamed with
    | some from_ => b.rename before written wr.ref from_
    | none => b
  let was := b.current before wr.ref
  if s.Same was wr.previous then b.put wr.ref wr.value
  else
    let r := s.merge wr.previous wr.value was []
    let b := { b with found := b.found ++ r.conflicts.map fun c => (wr.ref, c) }
    b.put wr.ref r.value

end BatchState

def renamesLast (writes : List Write) : List Write :=
  (writes.filter fun wr => wr.renamed.isNone) ++ writes.filter fun wr => wr.renamed.isSome

def renameAlone (before : Snapshot) (writes : List Write) : Option Ref :=
  writes.findSome? fun wr => wr.renamed.filter fun f => (¬ ∃ w ∈ writes, w.ref = f) ∧ before.get f ≠ none

def batch (s : Schema) (before : Snapshot) (writes : List Write) : BatchState :=
  writes.foldl (BatchState.write s before fun ref => ∃ wr ∈ writes, wr.ref = ref) (.start writes)

namespace Service
variable (svc : Service)

def reconciled (before after : Snapshot) (renames : Ref → Option Ref) (refs : List Ref) : Option (Snapshot × List Ref) :=
  match svc.reconcile with
  | none => some (after, refs)
  | some f => (f before after renames).map fun now =>
      (now, refs ++ (svc.schema.changes after now).filter fun ref => ref ∉ refs)

def foundBy (w : Workspace) (writes : List Write) (id : Nat) : List Conflict :=
  Schema.numbered ⟨.workspace, none, w.updatedBy⟩ true id (batch svc.schema w.items (renamesLast writes)).found

def writeItems (op : LogOp) (writes : List Write) (note : Option Note) (id : Nat) (w : Workspace) (base : Snapshot) : Outcome :=
  match renameAlone w.items (renamesLast writes) with
  | some from_ => .failed (.renameAlone from_)
  | none =>
    let b := batch svc.schema w.items (renamesLast writes)
    match svc.reconciled w.items (w.items.apply b.values b.refs) b.renames b.refs with
    | none => .failed .other
    | some (items, refs) =>
      let said := note.filter fun n => n.text ≠ ""
      .write { w with
          items
          conflicts := svc.schema.carry w.conflicts (svc.foundBy w writes id) items base none
          notes := w.notes ++ (said.filter fun n => n ∉ w.notes).toList }
        ⟨0, "", op, refs, (said.map Note.text).getD ""⟩

lemma writeItems_conflicts {svc : Service} {op : LogOp} {writes : List Write} {note : Option Note} {id : Nat}
    {w w' : Workspace} {base : Snapshot} {entry : LogEntry} (h : svc.writeItems op writes note id w base = .write w' entry) :
    w'.conflicts = svc.schema.carry w.conflicts (svc.foundBy w writes id) w'.items base none := by
  unfold writeItems at h
  split at h
  · cases h
  · simp only at h
    split at h
    · cases h
    · cases h
      rfl

def publishedSource (id : Int) : Source := ⟨.published, some id, ""⟩

/-- Moves a workspace onto a revision, re-applying the changes from `old` to `local_`. -/
def moveOnto (id : Nat) (w : Workspace) (old local_ next : Snapshot) (to_ : Int) : Workspace :=
  let r := svc.schema.replay old local_ next (publishedSource to_) false id
  { w with
    conflicts := svc.schema.carry w.conflicts r.2 r.1 next (some (publishedSource to_))
    items := r.1
    base := to_ }

/-- `Update`, onto a revision with items `next`. -/
def update (to_ : Int) (next : Snapshot) (id : Nat) (w : Workspace) (base : Snapshot) : Outcome :=
  if w.base > to_ then .unchanged
  else .write (svc.moveOnto id w base w.items next to_)
    ⟨0, "", .update, svc.schema.changes base w.items, "#" ++ idOf to_⟩

def reset (to_ : Int) (next : Snapshot) (w : Workspace) (base : Snapshot) : Outcome :=
  .write { w with items := next, base := to_, conflicts := [], notes := [], taken := [], checkpoint := 0, checkpointAt := 0 }
    ⟨0, "", .reset, svc.schema.changes base w.items, "#" ++ idOf to_⟩

def resolve (conflict : Nat) (theirs : Bool) (w : Workspace) (base : Snapshot) : Outcome :=
  match svc.schema.resolve w.items base w.conflicts conflict theirs with
  | .error .notOpen => .failed .noConflict
  | .error .unplaceable => .failed .unplaceable
  | .ok (items, left) =>
    .write { w with items, conflicts := left }
      ⟨0, "", .resolve, [((w.conflicts.filter fun c => c.id = conflict).getLast?.map Conflict.ref).getD ⟨"", ""⟩], ""⟩

/-- The workspace `mergeDraft` merges into: on the published revision. -/
def movedOnto (published : Int) (onto : Snapshot) (id : Nat) (w : Workspace) (base : Snapshot) : Workspace :=
  if w.base ≠ published then svc.moveOnto id w base w.items onto published else w

/-- What `mergeDraft` makes of a workspace on the published revision. -/
def takeIn (draft : Revision) (published : Int) (fromItems draftItems onto : Snapshot) (id : Nat) (w : Workspace) : Workspace :=
  let withDraft := svc.schema.replay fromItems draftItems onto (publishedSource published) false id
  let now := svc.schema.replay onto w.items withDraft.1 ⟨.draft, some draft.id, ""⟩ true (id + withDraft.2.length)
  { w with
    items := now.1
    conflicts := svc.schema.carry w.conflicts (withDraft.2 ++ now.2) now.1 onto none
    taken := w.taken ++ [draft.id]
    notes := w.notes ++ if draft.comment ≠ "" then [⟨"draft", idOf draft.id, draft.comment⟩] else [] }

/-- `mergeDraft`, with the items of the draft, of the revision it builds on and of the
published one. -/
def mergeDraft (draft : Revision) (published : Int) (fromItems draftItems onto : Snapshot) (id : Nat) (w : Workspace)
    (base : Snapshot) : Outcome :=
  if draft.id ∈ w.taken then .unchanged
  else if w.base > published then .failed .publishedMoved
  else
    let moved := svc.movedOnto published onto id w base
    let found := (svc.schema.replay base w.items onto (publishedSource published) false id).2.length
    let merged := svc.takeIn draft published fromItems draftItems onto (id + found) moved
    .write merged ⟨0, "", .merge, svc.schema.changes w.items merged.items, "#" ++ idOf draft.id⟩

/-- `loadRevision`: the content of a revision, as changes to the published one. -/
def load (rev : Revision) (content : Snapshot) (keep : Bool) (published : Int) (onto : Snapshot) (id : Nat) (w : Workspace)
    (base : Snapshot) : Outcome :=
  if w.base > published then .failed .publishedMoved
  else
    let loaded : Workspace :=
      if keep then
        let kind := if rev.state.isUnpublished then SourceKind.draft else .published
        let r := svc.schema.replay base w.items content ⟨kind, some rev.id, ""⟩ true id
        { w with
          conflicts := svc.schema.carry w.conflicts r.2 r.1 onto (some (publishedSource published))
          items := r.1 }
      else { w with items := content, conflicts := [], notes := [], taken := [], checkpoint := 0, checkpointAt := 0 }
    .write { loaded with base := published }
      ⟨0, "", .load, svc.schema.changes w.items loaded.items, "#" ++ idOf rev.id⟩

/-- `Checkpoint`, with the draft saved of a workspace at a version on a base. -/
def checkpoint (draft builtVersion builtBase : Int) (w : Workspace) : Outcome :=
  let at_ := if w.version = builtVersion ∧ w.base = builtBase then w.version + 1 else 0
  let taken := w.taken.filter fun id => ¬ (id = w.checkpoint ∧ id ≠ 0)
  .write { w with checkpoint := draft, checkpointAt := at_, taken := taken ++ [draft] }
    ⟨0, "", .checkpoint, [], "#" ++ idOf draft⟩

/-- `moveAfterCommit`: onto the revision a workspace was published as, keeping what was
written since. -/
def moveAfterCommit (snap : Workspace) (published : Int) (next : Snapshot) (committed : List Ref) (id : Nat) (w : Workspace) :
    Outcome :=
  let moved := if w.base ≤ published then svc.moveOnto id w snap.items w.items next published else w
  .write { moved with
      notes := w.notes.filter fun n => n ∉ snap.notes
      taken := w.taken.filter fun id => id ∉ snap.taken
      checkpoint := if w.checkpoint = snap.checkpoint then 0 else w.checkpoint
      checkpointAt := 0 }
    ⟨0, "", .commit, committed, "#" ++ idOf published⟩

end Service

def roleRef : Ref := ⟨"role", "analyst"⟩

def role (description : String) : Value := .object [("description", .text description)]

def roleItems (description : String) : Snapshot := ⟨[⟨roleRef, role description⟩], by simp, by simp [role]⟩

/-- No list is keyed, nothing is unset, and nothing is reconciled. -/
def plainService : Service := ⟨⟨fun _ => none, fun _ => false⟩, fun _ => none, fun _ _ => none, none⟩

def roleWorkspace (conflicts : List Conflict) : Workspace := ⟨1, roleItems "a", conflicts, [], [], 0, 0, 3, "root"⟩

end SqlMcpServer.Workspaces
