import Mathlib.Data.List.Basic
import Mathlib.Data.String.Basic
import Mathlib.Tactic.SplitIfs
import SqlMcpServer.Lib.Grouping

/-!
# Values of workspace items

Decoded JSON, the paths into it, and the rules a merge has for it. A value that may not be
there is an `Option Value`; `none` is `Missing`, which JSON null is not.
-/

namespace SqlMcpServer.Workspaces

open List

/-- Decoded JSON. A number is the bits of its float64; the entries of an object are a map,
so one that comes after another of its key does not count. -/
inductive Value where
  | null
  | bool (b : Bool)
  | num (bits : UInt64)
  | text (s : String)
  | list (els : List Value)
  | object (fields : List (String × Value))
deriving Repr

namespace Value

mutual
def beq : Value → Value → Bool
  | .null, .null => true
  | .bool a, .bool b => a = b
  | .num a, .num b => a = b
  | .text a, .text b => a = b
  | .list a, .list b => beqElements a b
  | .object a, .object b => beqFields a b
  | _, _ => false

def beqElements : List Value → List Value → Bool
  | [], [] => true
  | a :: as, b :: bs => beq a b && beqElements as bs
  | _, _ => false

def beqFields : List (String × Value) → List (String × Value) → Bool
  | [], [] => true
  | (k, a) :: as, (l, b) :: bs => decide (k = l) && beq a b && beqFields as bs
  | _, _ => false
end

mutual
lemma beq_iff : ∀ a b : Value, beq a b = true ↔ a = b
  | .null, b | .bool _, b | .num _, b | .text _, b => by cases b <;> simp [beq]
  | .list as, b => by cases b <;> simp [beq, beqElements_iff as]
  | .object as, b => by cases b <;> simp [beq, beqFields_iff as]

lemma beqElements_iff : ∀ as bs : List Value, beqElements as bs = true ↔ as = bs
  | [], bs => by cases bs <;> simp [beqElements]
  | a :: as, bs => by cases bs <;> simp [beqElements, beq_iff a, beqElements_iff as]

lemma beqFields_iff : ∀ as bs : List (String × Value), beqFields as bs = true ↔ as = bs
  | [], bs => by cases bs <;> simp [beqFields]
  | (k, a) :: as, bs => by
    rcases bs with _ | ⟨⟨l, b⟩, bs⟩ <;> simp [beqFields, beq_iff a, beqFields_iff as, and_assoc]
end

instance : DecidableEq Value := fun a b => decidable_of_iff _ (beq_iff a b)

mutual
/-- How deep lists and objects are nested. -/
def depth : Value → Nat
  | .list els => depthOfElements els + 1
  | .object fields => depthOfFields fields + 1
  | .null | .bool _ | .num _ | .text _ => 0

def depthOfElements : List Value → Nat
  | [] => 0
  | el :: rest => max (depth el) (depthOfElements rest)

def depthOfFields : List (String × Value) → Nat
  | [] => 0
  | (_, el) :: rest => max (depth el) (depthOfFields rest)
end

lemma depth_le_of_mem {el : Value} {els : List Value} (h : el ∈ els) : depth el ≤ depthOfElements els := by
  induction els with
  | nil => cases h
  | cons a els ih =>
    rw [depthOfElements]
    rcases mem_cons.mp h with rfl | h
    · exact Nat.le_max_left _ _
    · exact Nat.le_trans (ih h) (Nat.le_max_right _ _)

end Value

abbrev Fields := List (String × Value)

namespace Fields

/-- A property of an object. -/
def property : Fields → String → Option Value
  | [], _ => none
  | (k', v) :: m, k => if k = k' then some v else property m k

def put (k : String) (v : Value) : Fields → Fields
  | [] => [(k, v)]
  | (k', v') :: m => if k = k' then (k, v) :: m else if k < k' then (k, v) :: (k', v') :: m else (k', v') :: put k v m

def set (k : String) (m : Fields) : Option Value → Fields
  | none => m.filter fun e => e.1 ≠ k
  | some v => put k v m

lemma property_put (k : String) (v : Value) (m : Fields) (k' : String) :
    property (put k v m) k' = if k' = k then some v else property m k' := by
  induction m with
  | nil => rfl
  | cons e m ih =>
    obtain ⟨l, w⟩ := e
    rw [put]
    by_cases hkl : k = l
    · subst hkl
      rw [if_pos rfl, property, property]
      split_ifs <;> rfl
    · rw [if_neg hkl]
      split_ifs with hlt hk hk
      · rw [property, if_pos hk]
      · rw [property, if_neg hk]
      · subst hk
        rw [property, if_neg hkl, ih, if_pos rfl]
      · rw [property, property, ih, if_neg hk]

lemma property_filter_ne (k : String) (m : Fields) (k' : String) :
    property (m.filter fun e => e.1 ≠ k) k' = if k' = k then none else property m k' := by
  induction m with
  | nil => simp [property]
  | cons e m ih =>
    obtain ⟨l, w⟩ := e
    by_cases hl : l = k
    · subst hl
      rw [filter_cons_of_neg (by simp), ih, property]
      split_ifs <;> rfl
    · rw [filter_cons_of_pos (by simpa using hl), property, property, ih]
      by_cases hk : k' = l
      · subst hk
        rw [if_pos rfl, if_neg hl, if_pos rfl]
      · rw [if_neg hk, if_neg hk]

lemma property_set (k : String) (m : Fields) (v : Option Value) (k' : String) :
    property (set k m v) k' = if k' = k then v else property m k' := by
  cases v with
  | none => exact property_filter_ne k m k'
  | some v => exact property_put k v m k'

lemma property_filterMap (f : String → Option Value) (keys : List String) (k : String) :
    property (keys.filterMap fun k => (f k).map (k, ·)) k = if k ∈ keys then f k else none := by
  induction keys with
  | nil => rfl
  | cons l keys ih =>
    cases hl : f l with
    | none =>
      rw [filterMap_cons_none (by rw [hl]; rfl), ih]
      by_cases hk : k = l
      · subst hk
        simp [hl]
      · simp [hk]
    | some v =>
      rw [filterMap_cons_some (by rw [hl]; rfl), property, ih]
      by_cases hk : k = l
      · subst hk
        simp [hl]
      · simp [hk]

lemma property_eq_none {m : Fields} {k : String} (h : k ∉ m.map Prod.fst) : property m k = none := by
  induction m with
  | nil => rfl
  | cons e m ih =>
    simp only [map_cons, mem_cons, not_or] at h
    rw [property, if_neg h.1, ih h.2]

lemma depth_property {m : Fields} {k : String} {v : Value} (h : property m k = some v) :
    v.depth ≤ Value.depthOfFields m := by
  induction m with
  | nil => cases h
  | cons e m ih =>
    obtain ⟨l, w⟩ := e
    rw [property] at h
    rw [Value.depthOfFields]
    split_ifs at h with hk
    · cases h
      exact Nat.le_max_left _ _
    · exact Nat.le_trans (ih h) (Nat.le_max_right _ _)

end Fields

/-- A step into a value: an object property, or the element of a list with a key. -/
inductive Step where
  | field (k : String)
  | element (k : String)
deriving DecidableEq, Repr

def Step.isElement : Step → Bool
  | .field _ => false
  | .element _ => true

/-- Steps; empty is the whole value. -/
abbrev Path := List Step

def patternStep (first : Bool) : Step → String
  | .element _ => "[]"
  | .field k => if first then k else "." ++ k

/-- `Path.Pattern`: the path without its element keys. -/
def pattern (path : Path) : String := path.foldl (fun b s => b ++ patternStep (b = "") s) ""

/-- The pattern of property `k` under pattern `p`. -/
def fieldPattern (p k : String) : String := if p = "" then k else p ++ "." ++ k

/-- `Path.String`. -/
def pathText (path : Path) : String :=
  String.join (path.zipIdx.map fun (s, i) =>
    match s with
    | .element k => "[" ++ k ++ "]"
    | .field k => if i > 0 then "." ++ k else k)

/-- `Path.within`: whether `p` is `q` or under it. -/
abbrev within (p q : Path) : Prop := q <+: p

lemma pattern_field (path : Path) (k : String) : pattern (path ++ [.field k]) = fieldPattern (pattern path) k := by
  rw [pattern, foldl_append, ← pattern, fieldPattern]
  by_cases h : pattern path = ""
  · simp [h, patternStep]
  · simp [h, patternStep, String.append_assoc]

lemma pattern_element (path : Path) (k : String) : pattern (path ++ [.element k]) = pattern path ++ "[]" := by
  rw [pattern, foldl_append, ← pattern]
  rfl

/-- The rules a merge needs of the values it merges, by pattern. -/
structure Schema where
  /-- The property that keys the elements of a list, by the pattern of its elements. -/
  lists : String → Option String
  /-- The values whose zero means unset. -/
  unset : String → Bool

namespace Schema

section
variable (s : Schema)

mutual
/-- Drops the values at `unset` patterns that are zero. -/
def normalize : Value → String → Option Value
  | .list els, p => some (.list (normalizeElements els (p ++ "[]")))
  | .object fields, p => some (.object (normalizeFields fields p))
  | .text t, p => if s.unset p ∧ t = "" then none else some (.text t)
  | .bool b, p => if s.unset p ∧ b = false then none else some (.bool b)
  | .null, p => if s.unset p then none else some .null
  | .num n, _ => some (.num n)
termination_by structural v => v

-- What is dropped from a list leaves the `Missing` struct in its place, which JSON writes
-- as an empty object.
def normalizeElements : List Value → String → List Value
  | [], _ => []
  | el :: rest, p => (normalize el p).getD (.object []) :: normalizeElements rest p
termination_by structural els => els

def normalizeFields : Fields → String → Fields
  | [], _ => []
  | (k, el) :: rest, p => Fields.set k (normalizeFields rest p) (normalize el (fieldPattern p k))
termination_by structural fields => fields
end

/-- The canonical JSON of a value at a pattern, as the tree it writes: keys sorted, unset
values dropped, nothing there written as null. -/
def canonicalAt (p : String) (v : Option Value) : Value := (v.bind fun v => s.normalize v p).getD .null

def Same (a b : Option Value) : Prop := s.canonicalAt "" a = s.canonicalAt "" b

/-- The canonical form of an element of a keyed list, or of a group of elements sharing its
key. -/
def canonicalElement (path : Path) : Option Value → Value
  | some (.list group) => s.canonicalAt (pattern path.dropLast) (some (.list group))
  | v => s.canonicalAt (pattern path) v

def canonicalIn (path : Path) (v : Option Value) : Value :=
  if path.getLast?.any Step.isElement then s.canonicalElement path v else s.canonicalAt (pattern path) v

def SameAt (path : Path) (a b : Option Value) : Prop := s.canonicalIn path a = s.canonicalIn path b

instance : DecidableRel s.Same := fun _ _ => inferInstanceAs (Decidable (_ = _))

instance (path : Path) : DecidableRel (s.SameAt path) := fun _ _ => inferInstanceAs (Decidable (_ = _))

/-- The key of an element of the list at pattern `p`. -/
def elementKey (el : Value) (p : String) : Option String :=
  match s.lists (p ++ "[]"), el with
  | some prop, .object m =>
    match Fields.property m prop with
    | some (.text key) => some key
    | _ => none
  | _, _ => none

def keyEntries (p : String) : List Value → Option (List (String × Value))
  | [] => some []
  | el :: rest =>
    match s.elementKey el p, keyEntries p rest with
    | some key, some entries => some ((key, el) :: entries)
    | _, _ => none

end

end Schema

/-- Elements sharing a key have no identity of their own: they are one value. -/
def groupOf : List Value → Option Value
  | [] => none
  | [el] => some el
  | els => some (.list els)

def isGroup : Option Value → Bool
  | some (.list _) => true
  | _ => false

/-- A list of keyed elements. -/
structure KeyedList where
  entries : List (String × Value)

namespace KeyedList

def order (l : KeyedList) : List String := Grouping.distinctBy id (l.entries.map Prod.fst)

def get (l : KeyedList) (key : String) : Option Value := groupOf ((l.entries.filter fun e => e.1 = key).map Prod.snd)

end KeyedList

namespace Schema

variable (s : Schema)

/-- A list at pattern `p` by key; `none` when it is not a keyed list. -/
def keyed (v : Option Value) (p : String) : Option KeyedList :=
  match v with
  | some (.list els) => (s.keyEntries p els).map KeyedList.mk
  | _ => none

def object : Option Value → Option Fields
  | some (.object m) => some m
  | _ => none

def getFrom (v : Option Value) (path : Path) : Path → Option Value
  | [] => v
  | .field k :: rest => getFrom ((object v).bind fun m => m.property k) (path ++ [.field k]) rest
  | .element k :: rest => getFrom ((s.keyed v (pattern path)).bind fun l => l.get k) (path ++ [.element k]) rest

/-- `GetAt`: the value at a path, a group for elements sharing a key. -/
def getAt (root : Option Value) (path : Path) : Option Value := s.getFrom root [] path

end Schema

end SqlMcpServer.Workspaces
