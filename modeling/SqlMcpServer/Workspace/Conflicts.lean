import SqlMcpServer.Lib.Keyed
import SqlMcpServer.Workspace.Merge

/-!
# Items and conflicts of a workspace

A configuration as items, and the conflicts that arise when changes are re-applied onto another
side: they stand until resolved, or until the workspace no longer differs there.
-/

namespace SqlMcpServer.Workspaces

open List

structure Ref where
  kind : String
  key : String
deriving DecidableEq, Repr

structure Item where
  ref : Ref
  value : Value
deriving DecidableEq, Repr

/-- A configuration as items, in order, each named once. An item is never null. -/
structure Snapshot where
  items : List Item
  distinct : (items.map Item.ref).Nodup
  notNull : ∀ it ∈ items, it.value ≠ .null
deriving DecidableEq

def present (v : Option Value) : Option Value := v.filter fun v => v ≠ .null

namespace Snapshot

def get (s : Snapshot) (ref : Ref) : Option Value := (Keyed.find Item.ref ref s.items).map Item.value

section Apply
variable (s : Snapshot) (values : Ref → Option (Option Value)) (order : List Ref)

/-- An item that was there, as `values` has it. -/
def keptItem (it : Item) : Option Item :=
  match values it.ref with
  | none => some it
  | some v => (present v).map fun v => ⟨it.ref, v⟩

/-- An item of `order` that was not there. -/
def addedItem (ref : Ref) : Option Item :=
  if s.get ref = none then ((values ref).bind present).map fun v => ⟨ref, v⟩ else none

variable {s values order}

lemma keptItem_ref {it it' : Item} (h : keptItem values it = some it') : it'.ref = it.ref := by
  unfold keptItem at h
  split at h
  · cases h
    rfl
  · obtain ⟨v, _, rfl⟩ := Option.map_eq_some_iff.mp h
    rfl

lemma addedItem_eq_some {ref : Ref} {it : Item} (h : s.addedItem values ref = some it) :
    it.ref = ref ∧ s.get ref = none ∧ (values ref).bind present = some it.value := by
  unfold addedItem at h
  split_ifs at h with hnone
  obtain ⟨v, hv, rfl⟩ := Option.map_eq_some_iff.mp h
  exact ⟨rfl, hnone, hv⟩

lemma get_ne_none {it : Item} (h : it ∈ s.items) : s.get it.ref ≠ none := by
  intro hnone
  rw [get, Option.map_eq_none_iff, Keyed.find_eq_none_iff] at hnone
  exact hnone (mem_map_of_mem h)

lemma present_eq_some {u : Option Value} {v : Value} (h : present u = some v) : v ≠ .null := by
  simpa using (Option.filter_eq_some_iff.mp h).2

lemma keptItem_ne_null {it it' : Item} (hit : it.value ≠ .null) (h : keptItem values it = some it') : it'.value ≠ .null := by
  unfold keptItem at h
  split at h
  · cases h
    exact hit
  · obtain ⟨v, hv, rfl⟩ := Option.map_eq_some_iff.mp h
    exact present_eq_some hv

lemma added_nodup : (((Grouping.distinctBy id order).filterMap (s.addedItem values)).map Item.ref).Nodup := by
  have hnodup : (Grouping.distinctBy id order).Nodup := by
    simpa [Grouping.distinctBy] using Grouping.nodup_keys_distinctFrom id order []
  rw [map_filterMap]
  refine hnodup.filterMap fun r r' ref h h' => ?_
  obtain ⟨it, hit, rfl⟩ := Option.map_eq_some_iff.mp h
  obtain ⟨it', hit', href⟩ := Option.map_eq_some_iff.mp h'
  rw [← (addedItem_eq_some hit).1, ← (addedItem_eq_some hit').1, href]

variable (s values order)

/-- `Apply`: each item of `order` set to its value in `values`: replaced where it is,
appended when absent, or removed. -/
def apply : Snapshot where
  items := s.items.filterMap (keptItem values) ++ (Grouping.distinctBy id order).filterMap (s.addedItem values)
  distinct := by
    rw [map_append]
    have hsub : ((s.items.filterMap (keptItem values)).map Item.ref).Sublist (s.items.map Item.ref) :=
      Keyed.filterMap_sublist (fun _ _ => keptItem_ref) s.items
    refine List.Nodup.append (hsub.nodup s.distinct) added_nodup fun ref hkept hadded => ?_
    obtain ⟨it, hit, rfl⟩ := mem_map.mp (hsub.subset hkept)
    obtain ⟨it', hit', href⟩ := mem_map.mp hadded
    obtain ⟨r, _, hr⟩ := mem_filterMap.mp hit'
    obtain ⟨hr', hnone, _⟩ := addedItem_eq_some hr
    rw [← hr', href] at hnone
    exact get_ne_none hit hnone
  notNull it hit := by
    rcases mem_append.mp hit with hit | hit
    · obtain ⟨old, hold, hkept⟩ := mem_filterMap.mp hit
      exact keptItem_ne_null (s.notNull old hold) hkept
    · obtain ⟨r, _, hr⟩ := mem_filterMap.mp hit
      obtain ⟨v, _, hv⟩ := Option.bind_eq_some_iff.mp (addedItem_eq_some hr).2.2
      exact present_eq_some hv

end Apply

def with_ (s : Snapshot) (ref : Ref) (value : Option Value) : Snapshot :=
  s.apply (fun r => if r = ref then some value else none) [ref]

end Snapshot

def Schema.changes (sc : Schema) (a b : Snapshot) : List Ref :=
  ((b.items.filter fun it => ¬ sc.Same (a.get it.ref) (some it.value)).map Item.ref) ++
    ((a.items.filter fun it => b.get it.ref = none).map Item.ref)

inductive SourceKind where
  | published
  | draft
  | workspace
deriving DecidableEq, Repr

/-- Where the other side of a conflict comes from. -/
structure Source where
  kind : SourceKind
  id : Option Int
  writer : String
deriving DecidableEq, Repr

/-- A value of an item two sides changed differently. The workspace keeps its own; the other
side's is the base's or, when pinned, `theirs`. -/
structure Conflict where
  id : Nat
  ref : Ref
  path : Path
  source : Source
  pinned : Bool
  theirs : Option Value
deriving DecidableEq, Repr

structure Open where
  conflict : Conflict
  mine : Option Value
  theirsValue : Option Value
deriving DecidableEq, Repr

abbrev Conflict.Within (c outer : Conflict) : Prop := c.ref = outer.ref ∧ within c.path outer.path

namespace Schema
variable (s : Schema)

section View
variable (nowAt baseAt : Ref → Option Value) (c : Conflict)

def viewPath : Path := if c.pinned then c.path else s.addressable c.path [nowAt c.ref, baseAt c.ref]

def viewTheirs : Option Value := if c.pinned then c.theirs else s.getAt (baseAt c.ref) (s.viewPath nowAt baseAt c)

def holderGone (item : Option Value) (path : Path) : Bool :=
  (List.range path.length).any fun i => (s.getAt item (path.take i)).isNone

/-- `View`: a conflict as it stands now; `none` when there is nothing left to choose. -/
def view : Option Open :=
  let item := nowAt c.ref
  let path := s.viewPath nowAt baseAt c
  let mine := s.getAt item path
  let theirs := s.viewTheirs nowAt baseAt c
  if s.holderGone item path then none
  else if s.SameAt path mine theirs then none
  else some ⟨{ c with path }, mine, theirs⟩

end View

def openConflicts (now base : Snapshot) (cs : List Conflict) : List Open := cs.filterMap (s.view now.get base.get)

/-- The conflicts of a merge of an item, numbered from `id`. -/
def numbered (source : Source) (pinned : Bool) (id : Nat) (found : List (Ref × ValueConflict)) : List Conflict :=
  (found.zipIdx id).map fun ((ref, c), i) => ⟨i, ref, c.path, source, pinned, if pinned then c.theirs else none⟩

section Replay
variable (old local_ next : Snapshot)

def replayItem (ref : Ref) : Merged := s.merge (old.get ref) (local_.get ref) (next.get ref) []

/-- `Replay`: re-applies the changes from `old` to `local_` onto `next`. -/
def replay (source : Source) (pinned : Bool) (id : Nat) : Snapshot × List Conflict :=
  let changed := s.changes old local_
  (next.apply (fun ref => if ref ∈ changed then some (s.replayItem old local_ next ref).value else none) changed,
    numbered source pinned id
      (changed.flatMap fun ref => (s.replayItem old local_ next ref).conflicts.map fun c => (ref, c)))

end Replay

def carried (pending found : List Conflict) (now base : Snapshot) (source : Option Source) : List Conflict :=
  pending.filterMap fun p =>
    let p' := if p.pinned then p else { p with source := source.getD p.source }
    if ∃ f ∈ found, p.Within f then none else (s.view now.get base.get p').map Open.conflict

/-- `Carry`: keeps the conflicts not resolved before next to those just found. -/
def carry (pending found : List Conflict) (now base : Snapshot) (source : Option Source) : List Conflict :=
  let kept := s.carried pending found now base source
  kept ++ found.filter fun f => ¬ ∃ p ∈ kept, f.Within p

inductive ResolveError where
  | notOpen
  | unplaceable
deriving DecidableEq, Repr

def chosen (now base : Snapshot) (cs : List Conflict) (id : Nat) : Option Open :=
  (cs.filter fun c => c.id = id).getLast?.bind (s.view now.get base.get)

/-- `Resolve`: keeps the workspace's value or takes the other side's. -/
def resolve (now base : Snapshot) (cs : List Conflict) (id : Nat) (theirs : Bool) :
    Except ResolveError (Snapshot × List Conflict) :=
  match s.chosen now base cs id with
  | none => .error .notOpen
  | some o =>
    let c := o.conflict
    if theirs ∧ c.pinned ∧ (s.addressable c.path [now.get c.ref]).length < c.path.length then .error .unplaceable
    else
      let now' := if theirs then now.with_ c.ref (s.setAt (now.get c.ref) c.path o.theirsValue) else now
      .ok (now', cs.filter fun d =>
        ¬ (d.id = id ∨ d.Within c ∧ c.path.length < d.path.length ∧ d.source = c.source) ∧
          (s.view now'.get base.get d).isSome)

end Schema

end SqlMcpServer.Workspaces
