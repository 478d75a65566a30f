import SqlMcpServer.Workspace.Value

/-!
# Three-way merge

`Schema.Merge`: objects merge key by key, keyed lists element by element, elements sharing
a key as one value. A value both sides changed differently is a conflict, and the merged
value keeps the local one.
-/

namespace SqlMcpServer.Workspaces

structure ValueConflict where
  path : Path
  mine : Option Value
  theirs : Option Value
deriving DecidableEq, Repr

structure Merged where
  value : Option Value
  conflicts : List ValueConflict
deriving DecidableEq, Repr

def sortConflicts (cs : List ValueConflict) : List ValueConflict :=
  cs.insertionSort fun a b => pathText a.path ≤ pathText b.path

/-- The values of three sides in parts that merge on their own, or as a whole. -/
inductive Parts where
  | objects (base local_ next : Fields)
  | lists (base local_ next : KeyedList)
  | whole

namespace Schema

/-- A value that is not there in the base counts as an empty object where both sides added
one, else as an empty list. -/
def parts (s : Schema) (base local_ next : Option Value) (path : Path) : Parts :=
  match base, local_, next with
  | some (.object bo), some (.object lo), some (.object no) => .objects bo lo no
  | none, some (.object lo), some (.object no) => .objects [] lo no
  | base, local_, next =>
    let p := pattern path
    match s.keyed (some (base.getD (.list []))) p, s.keyed local_ p, s.keyed next p with
    | some b, some l, some n => .lists b l n
    | _, _, _ => .whole

def whole (s : Schema) (base local_ next : Option Value) (path : Path) : Merged :=
  if s.SameAt path local_ base then ⟨next, []⟩
  else if s.SameAt path next base ∨ s.SameAt path next local_ then ⟨local_, []⟩
  else ⟨local_, [⟨path, local_, next⟩]⟩

end Schema

def keysOf (base local_ next : Fields) : List String :=
  Grouping.distinctBy id ((local_ ++ next ++ base).map Prod.fst)

def orderOf (local_ next : KeyedList) : List String :=
  local_.order ++ next.order.filter fun k => k ∉ local_.order

/-- The elements a merged element or group adds to its list. -/
def elementsOf : Option Value → List Value
  | none => []
  | some (.list group) => group
  | some v => [v]

section
variable (merge whole : Option Value → Option Value → Option Value → Path → Merged)

def mergeObjects (base local_ next : Fields) (path : Path) : Merged :=
  let at_ (k : String) := merge (base.property k) (local_.property k) (next.property k) (path ++ [.field k])
  let keys := keysOf base local_ next
  ⟨some (.object (keys.filterMap fun k => (at_ k).value.map (k, ·))),
    sortConflicts (keys.flatMap fun k => (at_ k).conflicts)⟩

def mergeElement (base local_ next : KeyedList) (path : Path) (k : String) : Merged :=
  let (b, l, n) := (base.get k, local_.get k, next.get k)
  if isGroup b || isGroup l || isGroup n then whole b l n (path ++ [.element k])
  else merge b l n (path ++ [.element k])

def mergeLists (base local_ next : KeyedList) (path : Path) : Merged :=
  let at_ := mergeElement merge whole base local_ next path
  let order := orderOf local_ next
  ⟨some (.list (order.flatMap fun k => elementsOf (at_ k).value)), order.flatMap fun k => (at_ k).conflicts⟩

end

namespace Schema
variable (s : Schema)

/-- `merge`, with a bound on how deep it goes. -/
def mergeWithin : Nat → Option Value → Option Value → Option Value → Path → Merged
  | 0, _, local_, _, _ => ⟨local_, []⟩
  | fuel + 1, base, local_, next, path =>
    if s.SameAt path local_ base then ⟨next, []⟩
    else if s.SameAt path next base ∨ s.SameAt path next local_ then ⟨local_, []⟩
    else
      match s.parts base local_ next path with
      | .objects b l n => mergeObjects (mergeWithin fuel) b l n path
      | .lists b l n => mergeLists (mergeWithin fuel) s.whole b l n path
      | .whole => ⟨local_, [⟨path, local_, next⟩]⟩

def depthOf (v : Option Value) : Nat := (v.map Value.depth).getD 0

/-- `Schema.Merge`: merges base → local and base → next, the values at a path. The merge goes
no deeper than the local value. -/
def merge (base local_ next : Option Value) (path : Path) : Merged :=
  s.mergeWithin (depthOf local_ + 1) base local_ next path

/-- Replaces the elements with a key, of the list at pattern `p`, where the first of them
was. -/
def setElements (p key : String) (els : List Value) (replace : Option Value → Option Value) : List Value :=
  let isMine (el : Value) : Bool := s.elementKey el p = some key
  let others := els.filter fun el => !isMine el
  let at_ := if els.any isMine then (els.takeWhile fun el => !isMine el).length else others.length
  others.take at_ ++ elementsOf (replace (groupOf (els.filter isMine))) ++ others.drop at_

/-- `setAt`: a value at pattern `p` with the value at a path replaced, or removed; missing
objects on the way are created, and a missing list element is appended. -/
def setFrom (value : Option Value) : Option Value → String → Path → Option Value
  | _, _, [] => value
  | root, p, .field k :: rest =>
    let obj := (object root).getD []
    some (.object (Fields.set k obj (setFrom value (obj.property k) (fieldPattern p k) rest)))
  | root, p, .element k :: rest =>
    let els :=
      match root with
      | some (.list els) => els
      | _ => []
    some (.list (s.setElements p k els fun current => setFrom value current (p ++ "[]") rest))

def setAt (root : Option Value) (path : Path) (value : Option Value) : Option Value := s.setFrom value root "" path

/-- The part of a path that still names one value in each item: a path through an element that
became a group stops there. -/
def addressableFrom (items : List (Option Value)) (done : Path) : Path → Path
  | [] => done
  | [step] => done ++ [step]
  | step :: rest =>
    if step.isElement && items.any fun item => isGroup (s.getAt item (done ++ [step])) then done ++ [step]
    else addressableFrom items (done ++ [step]) rest

def addressable (path : Path) (items : List (Option Value)) : Path := s.addressableFrom items [] path

end Schema

end SqlMcpServer.Workspaces
