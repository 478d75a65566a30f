import SqlMcpServer.Configrefs
import SqlMcpServer.Workspace.ConflictLaws

/-!
# What a write changes in the items it did not write

`x/admin/configapp`: a workspace's items name each other, entities by references and roles by
name.
-/

namespace SqlMcpServer.Configapp

open List

open Workspaces

def itemEntity : String := "entity"
def itemRole : String := "role"
def itemUser : String := "user"
def itemSettings : String := "settings"

def object : Value → Option Fields
  | .object m => some m
  | _ => none

def stringOf : Value → String
  | .text s => s
  | _ => ""

@[simp] lemma stringOf_text (s : String) : stringOf (.text s) = s := rfl

def textAt (m : Fields) (key : String) : String := ((m.property key).map stringOf).getD ""

def text (v : Value) (key : String) : String := ((object v).map fun m => textAt m key).getD ""

def listAt (m : Option Fields) (key : String) : List Value :=
  match m.bind fun m => m.property key with
  | some (.list list) => list
  | _ => []

def setText (key to_ : String) : Value → Value
  | .object m => .object (Fields.put key (.text to_) m)
  | v => v

def entityNameOf (m : Fields) : EntityName := ⟨textAt m "name", textAt m "datasource", textAt m "schema"⟩

def entityOf (it : Item) : Option EntityName :=
  if it.ref.kind = itemEntity then (object it.value).map entityNameOf else none

def entitiesOf (s : Snapshot) : List EntityName := s.items.filterMap entityOf

def entityKeys (s : Snapshot) : List String := (s.items.filter fun it => it.ref.kind = itemEntity).map fun it => it.ref.key

def SameEntities (a b : Snapshot) : Prop := (entityKeys a).Perm (entityKeys b)

instance (a b : Snapshot) : Decidable (SameEntities a b) := inferInstanceAs (Decidable (List.Perm _ _))

def fieldNames (m : Option Fields) : List Value :=
  (listAt m "fields").filterMap fun f => (object f).map fun f => (f.property "name").getD .null

/-- What keys became: `none` is removed. A later entry of a key overwrites an earlier one. -/
abbrev Moves := List (String × Option String)

def Moves.entry (m : Moves) (key : String) : Option (Option String) := m.reverse.lookup key

structure Renames where
  entries : List (Ref × Ref)
  distinct : (entries.map Prod.fst).Nodup

namespace Renames

def source (r : Renames) (ref : Ref) : Option Ref := r.entries.lookup ref

def within (kind : String) (r : Renames) : Moves :=
  r.entries.filterMap fun (to_, from_) =>
    if to_.kind = kind ∧ from_.kind = kind then some (from_.key, some to_.key) else none

end Renames

structure Reconciliation where
  before : Snapshot
  after : Snapshot
  renames : Renames

namespace Reconciliation
variable (r : Reconciliation)

/-- The entities a renamed one replaced: what named them must not name the entity now holding
their ID. -/
def replaced : Moves :=
  r.renames.entries.filterMap fun (to_, _) =>
    if to_.kind = itemEntity ∧ (r.renames.within itemEntity).entry to_.key = none ∧ r.before.get to_ ≠ none then
      some (to_.key, none)
    else none

def removed (kind : String) : Moves :=
  r.before.items.filterMap fun it =>
    if r.after.get it.ref = none ∧ it.ref.kind = kind ∧ (r.renames.within kind).entry it.ref.key = none then
      some (it.ref.key, none)
    else none

def moved : Moves := r.renames.within itemEntity ++ r.replaced

def roles : Moves := r.renames.within itemRole ++ r.removed itemRole

def users : Moves := r.renames.within itemUser ++ r.removed itemUser

def previous (ref : Ref) : Option Fields := (r.before.get ((r.renames.source ref).getD ref)).bind object

def retarget (ref : String) : Option String :=
  entityNaming.retarget ref (entitiesOf r.before) (entitiesOf r.after) r.moved.entry

inductive RefKind where
  | grant | relationship | affects
deriving DecidableEq, Repr

namespace RefKind

def key : RefKind → String
  | .grant => "grants"
  | .relationship => "relationships"
  | .affects => "affects"

def refOf : RefKind → Value → String
  | .grant, el => text el "entity"
  | .relationship, el => text el "target"
  | .affects, el => stringOf el

def setRef : RefKind → Value → String → Value
  | .grant, el, to_ => if to_ = text el "entity" then el else setText "entity" to_ el
  | .relationship, el, to_ => if to_ = text el "target" then el else setText "target" to_ el
  | .affects, _, to_ => .text to_

/-- Whether the reference was in the item before the write. A relationship is told by its name;
the last of several of one name counts. -/
def existed (prev : Option Fields) : RefKind → Value → Bool
  | .grant, el => (listAt prev "grants").any fun g => text g "entity" = text el "entity"
  | .relationship, el =>
    ((listAt prev "relationships").reverse.find? fun rel => text rel "name" = text el "name").any fun rel =>
      text rel "target" = text el "target"
  | .affects, el => (listAt prev "affects").contains el

end RefKind

def follow (prev : Option Fields) (kind : RefKind) (el : Value) : Option Value :=
  if kind.existed prev el then (r.retarget (kind.refOf el)).map (kind.setRef el) else some el

def references (kind : RefKind) (v : Fields) (prev : Option Fields) : Fields × Bool :=
  match v.property kind.key with
  | some (.list list) =>
    (v.put kind.key (.list (list.filterMap (r.follow prev kind))),
      list.any fun el => kind.existed prev el && r.retarget (kind.refOf el) ≠ some (kind.refOf el))
  | _ => (v, false)

def grants (v : Fields) (prev : Option Fields) : Fields × Bool := r.references .grant v prev

def relationships (v : Fields) (prev : Option Fields) : Fields × Bool := r.references .relationship v prev

def affects (v : Fields) (prev : Option Fields) : Fields × Bool := r.references .affects v prev

def keepSource (ref : Ref) (v : Fields) (prev : Option Fields) : Fields × Bool :=
  match r.renames.source ref, prev with
  | some _, some prev =>
    if textAt v "source" ≠ "" ∨ textAt v "name" = textAt prev "name" then (v, false)
    else
      let source := textAt prev "source"
      (v.put "source" (.text (if source = "" then textAt prev "name" else source)), true)
  | _, _ => (v, false)

/-- The state of the loop of `roleNames`: the names so far, those a rename put there, and
whether anything changed. -/
structure Names where
  next : List Value := []
  renamed : List String := []
  changed : Bool := false

def roleName (s : Names) (n : Value) : Names :=
  match r.roles.entry (stringOf n) with
  | none => if stringOf n ∈ s.renamed then { s with changed := true } else { s with next := s.next ++ [n] }
  | some (some to_) =>
    if .text to_ ∈ s.next then { s with changed := true }
    else ⟨s.next ++ [.text to_], s.renamed ++ [to_], true⟩
  | some none => { s with changed := true }

def roleNames (names : List Value) : List Value × Bool :=
  let s := names.foldl r.roleName {}
  (s.next, s.changed)

def moveEntry (names : Moves) (out : Fields) (e : String × Value) : Fields :=
  match names.entry e.1 with
  | some (some to_) => out.put to_ e.2
  | _ => out

/-- Moves the entries named in `names` to their new names, or drops them, all at once: a chain or
a swap moves each. -/
def renameKeys (names : Moves) (m : Fields) : Fields :=
  m.foldl (moveEntry names) (m.filter fun e => names.entry e.1 = none)

def renameKeysAt (key : String) (names : Moves) (section_ : Fields) : Fields × Bool :=
  match section_.property key with
  | some (.object byName) =>
    if byName.any fun e => (names.entry e.1).isSome then (section_.put key (.object (renameKeys names byName)), true)
    else (section_, false)
  | _ => (section_, false)

def roleList : Value → Value × Bool
  | .list names => if (r.roleNames names).2 then (.list (r.roleNames names).1, true) else (.list names, false)
  | v => (v, false)

def roleLists (byAction : Fields) : Fields × Bool :=
  (byAction.map fun e => (e.1, (r.roleList e.2).1), byAction.any fun e => (r.roleList e.2).2)

def roleListsAt (legacy : Fields) : Fields × Bool :=
  match legacy.property "roles" with
  | some (.object byAction) =>
    if (r.roleLists byAction).2 then (legacy.put "roles" (.object (r.roleLists byAction).1), true) else (legacy, false)
  | _ => (legacy, false)

/-- Renames and removes roles in a legacy access: in role lists, and as keys of field lists and
row policies. -/
def legacyAccess (legacy : Fields) : Fields × Bool :=
  let (legacy, inLists) := r.roleListsAt legacy
  let (legacy, inFields) := renameKeysAt "fieldACL" r.roles legacy
  let (legacy, inRows) := renameKeysAt "rowPolicies" r.roles legacy
  (legacy, inLists || inFields || inRows)

def legacyRoles (v : Fields) : Fields × Bool :=
  match v.property "legacyAccess" with
  | some (.object legacy) =>
    if r.roles = [] then (v, false)
    else if (r.legacyAccess legacy).2 then (v.put "legacyAccess" (.object (r.legacyAccess legacy).1), true)
    else (v, false)
  | _ => (v, false)

def userRoles (v : Fields) : Fields × Bool :=
  match v.property "roles" with
  | some (.list roles) =>
    if (r.roleNames roles).2 then (v.put "roles" (.list (r.roleNames roles).1), true) else (v, false)
  | _ => (v, false)

def budgets (v : Fields) : Fields × Bool :=
  match v.property "budget" with
  | some (.object budget) =>
    let (budget, inRoles) := renameKeysAt "roles" r.roles budget
    let (budget, inUsers) := renameKeysAt "users" r.users budget
    if inRoles || inUsers then (v.put "budget" (.object budget), true) else (v, false)
  | _ => (v, false)

def item (ref : Ref) (v : Fields) : Fields × Bool :=
  let prev := r.previous ref
  if ref.kind = itemRole then r.grants v prev
  else if ref.kind = itemUser then
    let (v, granted) := r.grants v prev
    let (v, named) := r.userRoles v
    (v, granted || named)
  else if ref.kind = itemEntity then
    let (v, sourced) := r.keepSource ref v prev
    let (v, related) := r.relationships v prev
    let (v, affected) := r.affects v prev
    let (v, named) := r.legacyRoles v
    (v, sourced || related || affected || named)
  else if ref.kind = itemSettings then r.budgets v
  else (v, false)

def edit (s : Snapshot) (f : Ref → Fields → Fields × Bool) : Snapshot :=
  s.apply (fun ref => ((s.get ref).bind object).bind fun v =>
    if (f ref v).2 then some (some (.object (f ref v).1)) else none) []

def lostFields (out : Snapshot) (id : String) : List Value :=
  match (out.get ⟨itemEntity, id⟩).bind object, r.previous ⟨itemEntity, id⟩ with
  | some v, some prev => (fieldNames prev).filter fun f => f ∉ fieldNames (some v)
  | _, _ => []

def pruneList (gone : List Value) (key : String) (grant : Fields) : Fields × Bool :=
  match grant.property key with
  | some (.list fields) =>
    if fields.any fun f => f ∈ gone then (grant.put key (.list (fields.filter fun f => f ∉ gone)), true) else (grant, false)
  | _ => (grant, false)

def pruneGrant (out : Snapshot) : Value → Value × Bool
  | .object grant =>
    match entityNaming.idOf (entitiesOf out) (textAt grant "entity") with
    | some id =>
      let (grant, inRead) := pruneList (r.lostFields out id) "readFields" grant
      let (grant, inWrite) := pruneList (r.lostFields out id) "writeFields" grant
      (.object grant, inRead || inWrite)
    | none => (.object grant, false)
  | g => (g, false)

def pruneGrants (out : Snapshot) (ref : Ref) (v : Fields) : Fields × Bool :=
  if ref.kind = itemRole ∨ ref.kind = itemUser then
    match v.property "grants" with
    | some (.list list) =>
      if list.any fun g => (r.pruneGrant out g).2 then
        (v.put "grants" (.list (list.map fun g => (r.pruneGrant out g).1)), true)
      else (v, false)
    | _ => (v, false)
  else (v, false)

def pruneFields (out : Snapshot) : Snapshot := edit out (r.pruneGrants out)

/-- Every reference names what it named: only removed fields remain. -/
def Settled : Prop := r.moved = [] ∧ r.roles = [] ∧ r.users = [] ∧ SameEntities r.before r.after

instance : Decidable r.Settled := inferInstanceAs (Decidable (_ ∧ _ ∧ _ ∧ _))

def reconcile : Snapshot :=
  if r.Settled then r.pruneFields r.after else r.pruneFields (edit r.after r.item)

section Edits
variable {r : Reconciliation} {s : Snapshot} {f : Ref → Fields → Fields × Bool} {ref : Ref}

def edited (f : Ref → Fields → Fields × Bool) (ref : Ref) (v : Value) : Value :=
  match object v with
  | some m => if (f ref m).2 then .object (f ref m).1 else v
  | none => v

lemma object_eq_some {v : Value} {m : Fields} : object v = some m ↔ v = .object m := by
  cases v <;> simp [object]

lemma edited_object (m : Fields) : edited f ref (.object m) = .object (if (f ref m).2 then (f ref m).1 else m) := by
  simp only [edited, object]
  split_ifs <;> rfl

lemma keptItem_edit {it : Item} (hit : it ∈ s.items) :
    Snapshot.keptItem (fun ref => ((s.get ref).bind object).bind fun v =>
      if (f ref v).2 then some (some (.object (f ref v).1)) else none) it = some ⟨it.ref, edited f it.ref it.value⟩ := by
  have hget : s.get it.ref = some it.value := Snapshot.get_eq_some.mpr hit
  unfold Snapshot.keptItem edited
  simp only [hget, Option.bind_some]
  cases object it.value with
  | none => rfl
  | some m =>
    simp only [Option.bind_some]
    by_cases hchanged : (f it.ref m).2
    · rw [if_pos hchanged, if_pos hchanged]
      rfl
    · rw [if_neg hchanged, if_neg hchanged]

lemma items_edit : (edit s f).items = s.items.map fun it => ⟨it.ref, edited f it.ref it.value⟩ := by
  have hkept := filterMap_congr fun it hit => @keptItem_edit s f it hit
  simp only [edit, Snapshot.apply, Grouping.distinctBy, hkept]
  simp [Grouping.distinctFrom]

lemma get_edit : (edit s f).get ref = (s.get ref).map (edited f ref) := by
  ext v
  rw [Snapshot.get_eq_some, items_edit, mem_map, Option.map_eq_some_iff]
  constructor
  · rintro ⟨it, hit, heq⟩
    cases heq
    exact ⟨it.value, Snapshot.get_eq_some.mpr hit, rfl⟩
  · rintro ⟨old, hold, rfl⟩
    exact ⟨⟨ref, old⟩, Snapshot.get_eq_some.mp hold, rfl⟩

def Writes (key : String) (f : Fields → Fields × Bool) : Prop := ∀ v k, k ≠ key → (f v).1.property k = v.property k

lemma property_put_ne {m : Fields} {k key : String} {v : Value} (h : k ≠ key) : (m.put key v).property k = m.property k := by
  rw [Fields.property_put, if_neg h]

lemma writes_references (kind : RefKind) (prev : Option Fields) : Writes kind.key fun v => r.references kind v prev := by
  intro v k hk
  simp only [references]
  split
  · exact property_put_ne hk
  · rfl

lemma writes_keepSource (ref : Ref) (prev : Option Fields) : Writes "source" fun v => r.keepSource ref v prev := by
  intro v k hk
  simp only [keepSource]
  split
  · split
    · rfl
    · exact property_put_ne hk
  · rfl

lemma writes_legacyRoles : Writes "legacyAccess" r.legacyRoles := by
  intro v k hk
  unfold legacyRoles
  split
  · split_ifs
    · rfl
    · exact property_put_ne hk
    · rfl
  · rfl

lemma writes_userRoles : Writes "roles" r.userRoles := by
  intro v k hk
  unfold userRoles
  split
  · split_ifs
    · exact property_put_ne hk
    · rfl
  · rfl

lemma writes_pruneGrants (out : Snapshot) (ref : Ref) : Writes "grants" (r.pruneGrants out ref) := by
  intro v k hk
  unfold pruneGrants
  split_ifs
  · split
    · split_ifs
      · exact property_put_ne hk
      · rfl
    · rfl
  · rfl

lemma item_entity (key : String) (v : Fields) :
    (r.item ⟨itemEntity, key⟩ v).1 =
      (r.legacyRoles (r.affects (r.relationships (r.keepSource ⟨itemEntity, key⟩ v (r.previous ⟨itemEntity, key⟩)).1
        (r.previous ⟨itemEntity, key⟩)).1 (r.previous ⟨itemEntity, key⟩)).1).1 := by
  rw [item, if_neg (show itemEntity ≠ itemRole by decide), if_neg (show itemEntity ≠ itemUser by decide), if_pos rfl]

lemma property_item_entity {key k : String} {v : Fields} (hsource : k ≠ "source") (hrel : k ≠ "relationships")
    (haffects : k ≠ "affects") (hlegacy : k ≠ "legacyAccess") :
    (r.item ⟨itemEntity, key⟩ v).1.property k = v.property k := by
  rw [item_entity, writes_legacyRoles _ _ hlegacy]
  exact (writes_references .affects _ _ _ haffects).trans
    ((writes_references .relationship _ _ _ hrel).trans (writes_keepSource _ _ _ _ hsource))

lemma entityNameOf_congr {m m' : Fields} (hname : m'.property "name" = m.property "name")
    (hsource : m'.property "datasource" = m.property "datasource") (hschema : m'.property "schema" = m.property "schema") :
    entityNameOf m' = entityNameOf m := by
  rw [entityNameOf, entityNameOf, textAt, textAt, textAt, textAt, textAt, textAt, hname, hsource, hschema]

lemma entitiesOf_edit (h : ∀ key m, entityNameOf (f ⟨itemEntity, key⟩ m).1 = entityNameOf m) :
    entitiesOf (edit s f) = entitiesOf s := by
  rw [entitiesOf, entitiesOf, items_edit, filterMap_map]
  apply filterMap_congr
  intro it _
  simp only [Function.comp_apply, entityOf]
  split_ifs with hkind
  · cases hobject : object it.value with
    | none => simp [edited, hobject]
    | some m =>
      rw [object_eq_some.mp hobject, edited_object]
      have href : it.ref = ⟨itemEntity, it.ref.key⟩ := by rw [← hkind]
      split_ifs
      · rw [href]
        simp [object, h]
      · rfl
  · rfl

lemma entitiesOf_item : entitiesOf (edit r.after r.item) = entitiesOf r.after :=
  entitiesOf_edit fun key m => entityNameOf_congr
    (property_item_entity (by decide) (by decide) (by decide) (by decide))
    (property_item_entity (by decide) (by decide) (by decide) (by decide))
    (property_item_entity (by decide) (by decide) (by decide) (by decide))

lemma entitiesOf_pruneFields (out : Snapshot) : entitiesOf (r.pruneFields out) = entitiesOf out :=
  entitiesOf_edit fun key m => entityNameOf_congr (writes_pruneGrants _ _ _ _ (by decide))
    (writes_pruneGrants _ _ _ _ (by decide)) (writes_pruneGrants _ _ _ _ (by decide))

lemma entitiesOf_reconcile : entitiesOf r.reconcile = entitiesOf r.after := by
  unfold reconcile
  split_ifs
  · exact entitiesOf_pruneFields r.after
  · rw [entitiesOf_pruneFields, entitiesOf_item]

end Edits

end Reconciliation

end SqlMcpServer.Configapp
