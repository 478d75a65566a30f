import SqlMcpServer.Configapp.Reconcile

namespace SqlMcpServer.Configapp

open List

open Workspaces

/-- The key an item was renamed to; of several renamed from one, the order of the loop says which
counts. -/
def Renames.target (rn : Renames) (kind key : String) : Option String :=
  (rn.entries.reverse.find? fun p => p.1.kind = kind ∧ p.2 = ⟨kind, key⟩).map fun p => p.1.key

lemma Renames.entry_within (rn : Renames) (kind key : String) : (rn.within kind).entry key = (rn.target kind key).map some := by
  rw [Moves.entry, within, ← filterMap_reverse, target]
  induction rn.entries.reverse with
  | nil => rfl
  | cons p l ih =>
    obtain ⟨to_, k, from_⟩ := p
    rw [filterMap_cons, find?_cons]
    simp only [Ref.mk.injEq]
    by_cases hkind : to_.kind = kind ∧ k = kind
    · rw [if_pos hkind]
      simp only [lookup_cons, hkind, true_and]
      by_cases hkey : key = from_
      · simp [hkey]
      · simpa [beq_eq_false_iff_ne.mpr hkey, Ne.symm hkey] using ih
    · have hp : ¬ (to_.kind = kind ∧ k = kind ∧ from_ = key) := fun h => hkind ⟨h.1, h.2.1⟩
      rw [if_neg hkind]
      simpa [hp] using ih

namespace Reconciliation

def RefKind.HeldBy (item : String) : RefKind → Prop
  | .grant => item = itemRole ∨ item = itemUser
  | .relationship | .affects => item = itemEntity

def refsOf (kind : RefKind) (m : Fields) : List String := (listAt (some m) kind.key).map kind.refOf

def followRef (r : Reconciliation) (prev : Option Fields) (kind : RefKind) (el : Value) : Option String :=
  if kind.existed prev el then r.retarget (kind.refOf el) else some (kind.refOf el)

def followed (r : Reconciliation) (prev : Option Fields) (kind : RefKind) (m : Fields) : List String :=
  (listAt (some m) kind.key).filterMap (r.followRef prev kind)

variable {r : Reconciliation} {kind : RefKind} {prev : Option Fields} {m m' v : Fields} {ref : Ref}

lemma listAt_congr {key : String} (h : m'.property key = m.property key) : listAt (some m') key = listAt (some m) key := by
  rw [listAt, listAt, Option.bind_some, Option.bind_some, h]

lemma refsOf_congr (h : m'.property kind.key = m.property kind.key) : refsOf kind m' = refsOf kind m := by
  rw [refsOf, refsOf, listAt_congr h]

lemma followed_congr (h : m'.property kind.key = m.property kind.key) :
    r.followed prev kind m' = r.followed prev kind m := by
  rw [followed, followed, listAt_congr h]

lemma listAt_put (key : String) (m : Fields) (list : List Value) : listAt (some (m.put key (.list list))) key = list := by
  simp [listAt, Fields.property_put]

lemma text_setText {key to_ : String} (m : Fields) : text (setText key to_ (.object m)) key = to_ := by
  simp [text, setText, object, textAt, Fields.property_put, stringOf]

lemma text_of_not_object {el : Value} {key : String} (h : object el = none) : text el key = "" := by
  rw [text, h]
  rfl

/-- The element set is the reference it was set to; one that is no object has the empty
reference, and keeps it. -/
lemma refOf_setRef {el : Value} {to_ : String} (hempty : kind.refOf el = "" → to_ = "") :
    kind.refOf (kind.setRef el to_) = to_ := by
  have hset : ∀ key, (text el key = "" → to_ = "") →
      text (if to_ = text el key then el else setText key to_ el) key = to_ := by
    intro key hempty
    split_ifs with hsame
    · exact hsame.symm
    · cases hobject : object el with
      | none =>
        have htext := @text_of_not_object el key hobject
        exact absurd ((hempty htext).trans htext.symm) hsame
      | some m => rw [object_eq_some.mp hobject, text_setText]
  cases kind with
  | grant => exact hset "entity" hempty
  | relationship => exact hset "target" hempty
  | affects => rfl

def KeepsEmpty (r : Reconciliation) : Prop := r.retarget "" = some ""

lemma refOf_follow (hempty : r.KeepsEmpty) (el : Value) : (r.follow prev kind el).map kind.refOf = r.followRef prev kind el := by
  unfold follow followRef
  split_ifs
  · rw [Option.map_map]
    cases hto : r.retarget (kind.refOf el) with
    | none => rfl
    | some to_ =>
      rw [Option.map_some, Function.comp_apply, refOf_setRef]
      intro hnone
      rw [hnone, hempty] at hto
      exact (Option.some.inj hto).symm
  · rfl

lemma refsOf_references (hempty : r.KeepsEmpty) : refsOf kind (r.references kind v prev).1 = r.followed prev kind v := by
  unfold references refsOf followed
  split
  · rename_i list hlist
    rw [listAt_put, map_filterMap]
    simp only [refOf_follow hempty]
    simp [listAt, hlist]
  · rename_i hnone
    have hnil : listAt (some v) kind.key = [] := by
      unfold listAt
      split
      · rename_i list hlist
        exact absurd hlist (hnone list)
      · rfl
    rw [hnil]
    rfl

lemma followed_of_unchanged (h : (r.references kind v prev).2 = false) : r.followed prev kind v = refsOf kind v := by
  unfold followed refsOf
  rw [← filterMap_eq_map]
  apply filterMap_congr
  intro el hel
  unfold references at h
  split at h
  · rename_i list hlist
    have hmem : el ∈ list := by simpa [listAt, hlist] using hel
    have hsame := any_eq_false.mp h el hmem
    unfold followRef
    split_ifs with hexisted
    · simpa [hexisted] using hsame
    · rfl
  · rename_i hnone
    unfold listAt at hel
    split at hel
    · rename_i list hlist
      exact absurd hlist (hnone list)
    · cases hel

lemma item_role (key : String) : r.item ⟨itemRole, key⟩ v = r.grants v (r.previous ⟨itemRole, key⟩) := by
  rw [item, if_pos rfl]

lemma item_user (key : String) : r.item ⟨itemUser, key⟩ v =
    ((r.userRoles (r.grants v (r.previous ⟨itemUser, key⟩)).1).1,
      (r.grants v (r.previous ⟨itemUser, key⟩)).2 || (r.userRoles (r.grants v (r.previous ⟨itemUser, key⟩)).1).2) := by
  rw [item, if_neg (show itemUser ≠ itemRole by decide), if_pos rfl]

lemma property_keepSource {ref : Ref} {k : String} (hk : k ≠ "source") :
    (r.keepSource ref v prev).1.property k = v.property k := writes_keepSource ref prev v k hk

lemma refsOf_item (hempty : r.KeepsEmpty) (hheld : kind.HeldBy ref.kind) :
    refsOf kind (r.item ref v).1 = r.followed (r.previous ref) kind v := by
  obtain ⟨item, key⟩ := ref
  cases kind with
  | grant =>
    rcases hheld with rfl | rfl
    · rw [item_role]
      exact refsOf_references hempty
    · rw [item_user]
      exact (refsOf_congr (writes_userRoles _ _ (by decide))).trans (refsOf_references hempty)
  | relationship =>
    obtain rfl := hheld
    rw [item_entity]
    refine (refsOf_congr (writes_legacyRoles _ _ (by decide))).trans ?_
    refine (refsOf_congr (writes_references .affects _ _ _ (by decide))).trans ?_
    exact (refsOf_references hempty).trans (followed_congr (property_keepSource (by decide)))
  | affects =>
    obtain rfl := hheld
    rw [item_entity]
    refine (refsOf_congr (writes_legacyRoles _ _ (by decide))).trans ?_
    refine (refsOf_references hempty).trans (followed_congr ?_)
    exact (writes_references .relationship _ _ _ (by decide)).trans (property_keepSource (by decide))

lemma flags_entity {key : String} (h : (r.item ⟨itemEntity, key⟩ v).2 = false) :
    (r.relationships (r.keepSource ⟨itemEntity, key⟩ v (r.previous ⟨itemEntity, key⟩)).1 (r.previous ⟨itemEntity, key⟩)).2 = false ∧
      (r.affects (r.relationships (r.keepSource ⟨itemEntity, key⟩ v (r.previous ⟨itemEntity, key⟩)).1
        (r.previous ⟨itemEntity, key⟩)).1 (r.previous ⟨itemEntity, key⟩)).2 = false := by
  rw [item, if_neg (show itemEntity ≠ itemRole by decide), if_neg (show itemEntity ≠ itemUser by decide), if_pos rfl] at h
  simp only [Bool.or_eq_false_iff] at h
  exact ⟨h.1.1.2, h.1.2⟩

lemma followed_of_item_unchanged (hheld : kind.HeldBy ref.kind) (h : (r.item ref v).2 = false) :
    r.followed (r.previous ref) kind v = refsOf kind v := by
  obtain ⟨item, key⟩ := ref
  cases kind with
  | grant =>
    rcases hheld with rfl | rfl
    · rw [item_role] at h
      exact followed_of_unchanged h
    · rw [item_user] at h
      exact followed_of_unchanged (Bool.or_eq_false_iff.mp h).1
  | relationship =>
    obtain rfl := hheld
    have hkept : (r.keepSource ⟨itemEntity, key⟩ v (r.previous ⟨itemEntity, key⟩)).1.property RefKind.relationship.key =
      v.property RefKind.relationship.key := property_keepSource (by decide)
    rw [← followed_congr hkept, ← refsOf_congr hkept]
    exact followed_of_unchanged (flags_entity h).1
  | affects =>
    obtain rfl := hheld
    have hkept := (writes_references (r := r) .relationship (r.previous ⟨itemEntity, key⟩)
      (r.keepSource ⟨itemEntity, key⟩ v (r.previous ⟨itemEntity, key⟩)).1 RefKind.affects.key (by decide)).trans
        (property_keepSource (by decide))
    rw [← followed_congr hkept, ← refsOf_congr hkept]
    exact followed_of_unchanged (flags_entity h).2

lemma refsOf_edited_item (hempty : r.KeepsEmpty) (hheld : kind.HeldBy ref.kind) :
    refsOf kind (if (r.item ref v).2 then (r.item ref v).1 else v) = r.followed (r.previous ref) kind v := by
  split_ifs with hchanged
  · exact refsOf_item hempty hheld
  · exact (followed_of_item_unchanged hheld (by simpa using hchanged)).symm

lemma textAt_pruneList {gone : List Value} {key : String} (hkey : key ≠ "entity") :
    textAt (pruneList gone key m).1 "entity" = textAt m "entity" := by
  unfold pruneList
  split
  · split_ifs
    · rw [textAt, textAt, property_put_ne hkey.symm]
    · rfl
  · rfl

lemma text_pruneGrant (out : Snapshot) (g : Value) : text (r.pruneGrant out g).1 "entity" = text g "entity" := by
  cases g with
  | object m =>
    simp only [pruneGrant]
    split
    · exact (textAt_pruneList (show "writeFields" ≠ "entity" by decide)).trans
        (textAt_pruneList (show "readFields" ≠ "entity" by decide))
    · rfl
  | _ => rfl

lemma refsOf_pruneGrants (out : Snapshot) : refsOf kind (r.pruneGrants out ref v).1 = refsOf kind v := by
  cases kind with
  | grant =>
    unfold pruneGrants
    split_ifs
    · split
      · rename_i list hlist
        split_ifs
        · rw [refsOf, refsOf, show RefKind.grant.key = "grants" from rfl, listAt_put, map_map]
          have hsame : listAt (some v) "grants" = list := by simp [listAt, hlist]
          rw [hsame]
          exact map_congr_left fun g _ => text_pruneGrant out g
        · rfl
      · rfl
    · rfl
  | relationship => exact refsOf_congr (writes_pruneGrants out ref v _ (by decide))
  | affects => exact refsOf_congr (writes_pruneGrants out ref v _ (by decide))

lemma get_reconcile (hempty : r.KeepsEmpty) (hsettled : r.Settled → ∀ s, r.retarget s = some s)
    (hheld : kind.HeldBy ref.kind) (hget : r.after.get ref = some (.object v)) :
    ∃ v', r.reconcile.get ref = some (.object v') ∧ refsOf kind v' = r.followed (r.previous ref) kind v := by
  have hpruned : ∀ out u, refsOf kind (if (r.pruneGrants out ref u).2 then (r.pruneGrants out ref u).1 else u) = refsOf kind u := by
    intro out u
    split_ifs
    · exact refsOf_pruneGrants out
    · rfl
  unfold reconcile
  by_cases hs : r.Settled
  · rw [if_pos hs, pruneFields, get_edit, hget, Option.map_some, edited_object]
    refine ⟨_, rfl, (hpruned _ v).trans ?_⟩
    rw [refsOf, ← filterMap_eq_map]
    apply filterMap_congr
    intro el _
    simp [followRef, hsettled hs]
  · rw [if_neg hs, pruneFields, get_edit, get_edit, hget, Option.map_some, Option.map_some, edited_object, edited_object]
    exact ⟨_, rfl, (hpruned _ _).trans (refsOf_edited_item hempty hheld)⟩

def became (r : Reconciliation) (e : String) : String := (r.renames.target itemEntity e).getD e

def Replaced (r : Reconciliation) (e : String) : Prop :=
  r.renames.target itemEntity e = none ∧ ∃ p ∈ r.renames.entries, p.1 = ⟨itemEntity, e⟩

def Removed (r : Reconciliation) (e : String) : Prop := r.after.get ⟨itemEntity, r.became e⟩ = none

/-- The entities of a snapshot are keyed by their IDs, which their names make without dots of
their own. -/
def EntitiesKeyed (s : Snapshot) : Prop :=
  ∀ it ∈ s.items, it.ref.kind = itemEntity → ∃ e, entityOf it = some e ∧ e.id = it.ref.key ∧ e.name ≠ "" ∧ e.Dotless

instance (it : Item) : Decidable (∃ e, entityOf it = some e ∧ e.id = it.ref.key ∧ e.name ≠ "" ∧ e.Dotless) :=
  decidable_of_iff ((entityOf it).any fun e => decide (e.id = it.ref.key ∧ e.name ≠ "" ∧ e.Dotless))
    (by simp only [Option.any_eq_true, decide_eq_true_eq])

instance (s : Snapshot) : Decidable (EntitiesKeyed s) := inferInstanceAs (Decidable (∀ it ∈ s.items, _))

lemma entry_append (a b : Moves) (key : String) : Moves.entry (a ++ b) key = (b.entry key).or (a.entry key) := by
  rw [Moves.entry, reverse_append, lookup_append]
  rfl

lemma entry_of_removes {l : Moves} (h : ∀ e ∈ l, e.2 = none) (key : String) :
    l.entry key = if key ∈ l.map Prod.fst then some none else none := by
  have hmem : key ∈ l.map Prod.fst ↔ key ∈ l.reverse.map Prod.fst := by simp
  rw [Moves.entry, if_congr hmem rfl rfl]
  have hall : ∀ e ∈ l.reverse, e.2 = none := fun e he => h e (mem_reverse.mp he)
  generalize l.reverse = l' at hall
  induction l' with
  | nil => rfl
  | cons e l' ih =>
    obtain ⟨k, o⟩ := e
    obtain rfl : o = none := hall (k, o) mem_cons_self
    have hrest := ih fun e he => hall e (mem_cons_of_mem _ he)
    rw [lookup_cons, map_cons]
    by_cases hk : key = k
    · simp [hk]
    · rw [beq_eq_false_iff_ne.mpr hk]
      exact hrest.trans (if_congr (by simp [hk]) rfl rfl)

lemma replaced_removes : ∀ e ∈ r.replaced, e.2 = none := by
  intro e he
  obtain ⟨⟨to_, from_⟩, -, hp⟩ := mem_filterMap.mp he
  simp only at hp
  split_ifs at hp
  cases hp
  rfl

lemma mem_replaced {e : String} : e ∈ r.replaced.map Prod.fst ↔ r.Replaced e ∧ r.before.get ⟨itemEntity, e⟩ ≠ none := by
  rw [replaced, map_filterMap, mem_filterMap]
  simp only [Renames.entry_within, Option.map_eq_none_iff, Replaced]
  constructor
  · rintro ⟨⟨to_, from_⟩, hmem, hp⟩
    simp only at hp
    split_ifs at hp with hcond
    · obtain rfl := Option.some.inj hp
      have hto : to_ = ⟨itemEntity, to_.key⟩ := by rw [← hcond.1]
      exact ⟨⟨hcond.2.1, (to_, from_), hmem, hto⟩, hto ▸ hcond.2.2⟩
    · cases hp
  · rintro ⟨⟨htarget, ⟨to_, from_⟩, hmem, rfl⟩, hget⟩
    refine ⟨_, hmem, ?_⟩
    simp only
    rw [if_pos ⟨trivial, htarget, hget⟩]
    rfl

instance (e : String) : Decidable (r.Replaced e) := inferInstanceAs (Decidable (_ ∧ _))

instance (e : String) : Decidable (r.Removed e) := inferInstanceAs (Decidable (_ = _))

lemma entry_moved {e : String} (he : r.before.get ⟨itemEntity, e⟩ ≠ none) :
    r.moved.entry e = if r.Replaced e then some none else (r.renames.target itemEntity e).map some := by
  rw [moved, entry_append, Renames.entry_within, entry_of_removes replaced_removes, if_congr mem_replaced rfl rfl]
  by_cases hreplaced : r.Replaced e
  · rw [if_pos ⟨hreplaced, he⟩, if_pos hreplaced]
    rfl
  · rw [if_neg fun h => hreplaced h.1, if_neg hreplaced]
    rfl

section Keyed
variable {s : Snapshot}

lemma mem_entitiesOf {e : EntityName} : e ∈ entitiesOf s ↔ ∃ it ∈ s.items, entityOf it = some e := mem_filterMap

lemma entityOf_kind {it : Item} {e : EntityName} (h : entityOf it = some e) : it.ref.kind = itemEntity := by
  unfold entityOf at h
  split_ifs at h with hkind
  exact hkind

lemma mem_ids_iff (h : EntitiesKeyed s) {id : String} :
    id ∈ entityNaming.ids (entitiesOf s) ↔ s.get ⟨itemEntity, id⟩ ≠ none := by
  rw [Naming.ids, mem_map]
  constructor
  · rintro ⟨e, he, rfl⟩
    obtain ⟨it, hit, hentity⟩ := mem_entitiesOf.mp he
    obtain ⟨e', he', hid, -⟩ := h it hit (entityOf_kind hentity)
    obtain rfl := Option.some.inj (hentity.symm.trans he')
    have href : it.ref = ⟨itemEntity, entityNaming.id e⟩ := by
      rw [← entityOf_kind hentity, show entityNaming.id e = it.ref.key from hid]
    exact href ▸ Snapshot.get_ne_none hit
  · intro hget
    obtain ⟨v, hv⟩ := Option.ne_none_iff_exists'.mp hget
    obtain ⟨e, he, hid, -⟩ := h _ (Snapshot.get_eq_some.mp hv) rfl
    exact ⟨e, mem_entitiesOf.mpr ⟨_, Snapshot.get_eq_some.mp hv, he⟩, hid⟩

lemma ids_entitiesOf (h : EntitiesKeyed s) : entityNaming.ids (entitiesOf s) = entityKeys s := by
  rw [Naming.ids, entitiesOf, entityKeys, map_filterMap, ← filterMap_eq_filter, map_filterMap]
  apply filterMap_congr
  intro it hit
  by_cases hkind : it.ref.kind = itemEntity
  · obtain ⟨e, he, hid, -⟩ := h it hit hkind
    simp [he, hkind, ← hid, entityNaming]
  · simp [entityOf, hkind]

lemma nodup_ids (h : EntitiesKeyed s) : (entityNaming.ids (entitiesOf s)).Nodup := by
  rw [ids_entitiesOf h, entityKeys]
  refine List.Nodup.map_on (fun a ha b hb hkey => ?_) (s.distinct.of_map _ |>.filter _)
  simp only [mem_filter, decide_eq_true_eq] at ha hb
  have href : a.ref = b.ref := by
    rw [show a.ref = ⟨a.ref.kind, a.ref.key⟩ from rfl, ha.2, show a.ref.key = b.ref.key from hkey, ← hb.2]
  exact inj_on_of_nodup_map s.distinct ha.1 hb.1 href

end Keyed

lemma mem_entitiesOf_dotless {s : Snapshot} (h : EntitiesKeyed s) {e : EntityName} (he : e ∈ entitiesOf s) :
    e.name ≠ "" ∧ e.Dotless := by
  obtain ⟨it, hit, hentity⟩ := mem_entitiesOf.mp he
  obtain ⟨e', he', -, hdotless⟩ := h it hit (entityOf_kind hentity)
  obtain rfl := Option.some.inj (hentity.symm.trans he')
  exact hdotless

lemma nodup_canonical {s : Snapshot} (h : EntitiesKeyed s) : ((entitiesOf s).map EntityName.canonical).Nodup := by
  apply List.Nodup.of_map EntityName.id
  rw [map_map]
  have hid : EntityName.id ∘ EntityName.canonical = EntityName.id := funext EntityName.id_canonical
  rw [hid]
  exact nodup_ids h

lemma canonical_perm {a b : Snapshot} (ha : EntitiesKeyed a) (hb : EntitiesKeyed b) (hsame : SameEntities a b) :
    ((entitiesOf a).map EntityName.canonical).Perm ((entitiesOf b).map EntityName.canonical) := by
  have hsub : ∀ {a b : Snapshot}, EntitiesKeyed a → EntitiesKeyed b → SameEntities a b →
      ∀ c ∈ (entitiesOf a).map EntityName.canonical, c ∈ (entitiesOf b).map EntityName.canonical := by
    intro a b ha hb hsame c hc
    obtain ⟨e, he, rfl⟩ := mem_map.mp hc
    have hid : entityNaming.id e ∈ entityNaming.ids (entitiesOf b) := by
      rw [ids_entitiesOf hb, ← hsame.mem_iff, ← ids_entitiesOf ha]
      exact Naming.mem_ids_of_mem he
    obtain ⟨f, hf, hfe⟩ := mem_map.mp hid
    have hcanonical := EntityName.canonical_eq_of_id (mem_entitiesOf_dotless hb hf).2 (mem_entitiesOf_dotless ha he).2 hfe
    exact mem_map.mpr ⟨f, hf, hcanonical⟩
  rw [perm_ext_iff_of_nodup (nodup_canonical ha) (nodup_canonical hb)]
  exact fun c => ⟨hsub ha hb hsame c, hsub hb ha hsame.symm c⟩

lemma idOf_canonical (es : List EntityName) (s : String) :
    entityNaming.idOf (es.map EntityName.canonical) s = entityNaming.idOf es s :=
  Naming.idOf_map EntityName.id_canonical EntityName.references_canonical

lemma retarget_of_settled (hbefore : EntitiesKeyed r.before) (hafter : EntitiesKeyed r.after) (h : r.Settled) (s : String) :
    r.retarget s = some s := by
  apply Naming.retarget_of_same
  · intro k
    rw [h.1]
    rfl
  · rw [← idOf_canonical, ← idOf_canonical (entitiesOf r.after)]
    exact Naming.idOf_perm (canonical_perm hbefore hafter h.2.2.2)

lemma keepsEmpty (hbefore : EntitiesKeyed r.before) : r.KeepsEmpty := by
  apply Naming.retarget_of_unnamed
  cases h : entityNaming.idOf (entitiesOf r.before) "" with
  | none => rfl
  | some id =>
    obtain ⟨e, he, -, href⟩ := Naming.exists_of_idOf h
    exact absurd href (EntityName.empty_notMem_references (mem_entitiesOf_dotless hbefore he).1)

lemma now_eq (hafter : EntitiesKeyed r.after) {e : String} (he : r.before.get ⟨itemEntity, e⟩ ≠ none) :
    entityNaming.now r.moved.entry (entitiesOf r.after) e =
      if r.Removed e ∨ r.Replaced e then none else some (r.became e) := by
  rw [Naming.now, entry_moved he]
  by_cases hreplaced : r.Replaced e
  · rw [if_pos hreplaced, if_pos (.inr hreplaced)]
    rfl
  · have hmoved : ((r.renames.target itemEntity e).map some).getD (some e) = some (r.became e) := by
      unfold became
      cases r.renames.target itemEntity e <;> rfl
    rw [if_neg hreplaced, hmoved]
    by_cases hgone : r.Removed e
    · rw [if_pos (.inl hgone), Option.filter_some_neg]
      simpa [mem_ids_iff hafter, Removed] using hgone
    · rw [if_neg (by simp [hreplaced, hgone]), Option.filter_some_pos]
      simpa [mem_ids_iff hafter, Removed] using hgone

/-- Whether a reference was in an item: a grant of the entity, a relationship of the name and
target, an entry. -/
def WasThere (prev : Option Fields) : RefKind → Value → Prop
  | .grant, el => ∃ g ∈ listAt prev "grants", text g "entity" = text el "entity"
  | .relationship, el =>
    ∃ rel ∈ listAt prev "relationships", text rel "name" = text el "name" ∧ text rel "target" = text el "target"
  | .affects, el => el ∈ listAt prev "affects"

def RelationshipsNamed (s : Snapshot) : Prop :=
  ∀ it ∈ s.items, ((listAt (object it.value) "relationships").map (text · "name")).Nodup

lemma existed_relationship (hnames : ((listAt prev "relationships").map (text · "name")).Nodup) (el : Value) :
    RefKind.existed prev .relationship el = true ↔ WasThere prev .relationship el := by
  have hreverse : ((listAt prev "relationships").reverse.map (text · "name")).Nodup := by
    rw [map_reverse, nodup_reverse]
    exact hnames
  simp only [RefKind.existed, WasThere, Option.any_eq_true, decide_eq_true_eq]
  constructor
  · rintro ⟨rel, hrel, htarget⟩
    refine ⟨rel, mem_reverse.mp (mem_of_find?_eq_some hrel), ?_, htarget⟩
    simpa using find?_some hrel
  · rintro ⟨rel, hrel, hname, htarget⟩
    refine ⟨rel, ?_, htarget⟩
    rw [← hname]
    exact Keyed.find_of_mem hreverse (mem_reverse.mpr hrel)

lemma existed_iff (hnames : kind = .relationship → ((listAt prev "relationships").map (text · "name")).Nodup) (el : Value) :
    kind.existed prev el = true ↔ WasThere prev kind el := by
  cases kind with
  | grant => simp [RefKind.existed, WasThere]
  | relationship => exact existed_relationship (hnames rfl) el
  | affects => simp [RefKind.existed, WasThere]

instance (s : Snapshot) : Decidable (RelationshipsNamed s) := inferInstanceAs (Decidable (∀ it ∈ s.items, _))

lemma nodup_previous (hnames : RelationshipsNamed r.before) (ref : Ref) :
    ((listAt (r.previous ref) "relationships").map (text · "name")).Nodup := by
  unfold previous
  cases hget : r.before.get ((r.renames.source ref).getD ref) with
  | none => exact nodup_nil
  | some v => exact hnames _ (Snapshot.get_eq_some.mp hget)

/-- In every item, each reference there was that named one entity names what the entity became,
and is gone exactly when it was removed or replaced; new references are as written. -/
def KeepsMeaning (r : Reconciliation) : Prop :=
  ∀ (kind : RefKind) (ref : Ref) (v : Fields), kind.HeldBy ref.kind → r.after.get ref = some (.object v) →
    ∃ v', r.reconcile.get ref = some (.object v') ∧ ∃ becomes : Value → Option String,
      refsOf kind v' = (listAt (some v) kind.key).filterMap becomes ∧
      ∀ el ∈ listAt (some v) kind.key,
        (¬ WasThere (r.previous ref) kind el → becomes el = some (kind.refOf el)) ∧
        (WasThere (r.previous ref) kind el → ∀ e, entityNaming.idOf (entitiesOf r.before) (kind.refOf el) = some e →
          (becomes el = none ↔ r.Removed e ∨ r.Replaced e) ∧
          ∀ ref', becomes el = some ref' → entityNaming.idOf (entitiesOf r.reconcile) ref' = some (r.became e))

lemma retarget_spec (hbefore : EntitiesKeyed r.before) (hafter : EntitiesKeyed r.after) {s e : String}
    (hnamed : entityNaming.idOf (entitiesOf r.before) s = some e) :
    (r.retarget s = none ↔ r.Removed e ∨ r.Replaced e) ∧
      ∀ s', r.retarget s = some s' → entityNaming.idOf (entitiesOf r.after) s' = some (r.became e) := by
  have hthere : r.before.get ⟨itemEntity, e⟩ ≠ none := (mem_ids_iff hbefore).mp (Naming.mem_ids_of_idOf hnamed)
  have hnow := now_eq hafter hthere
  have hgone : r.retarget s = none ↔ r.Removed e ∨ r.Replaced e := by
    rw [retarget, Naming.retarget_eq_none_iff hnamed, hnow, ite_eq_left_iff]
    constructor
    · intro h
      by_contra hkept
      cases h hkept
    · intro h hkept
      exact absurd h hkept
  refine ⟨hgone, fun s' hs' => ?_⟩
  have hkept : ¬ (r.Removed e ∨ r.Replaced e) := by
    intro h
    rw [hgone.mpr h] at hs'
    cases hs'
  rw [Naming.idOf_retarget hnamed hs', hnow, if_neg hkept]

theorem references_keep_meaning (r : Reconciliation) (hbefore : EntitiesKeyed r.before) (hafter : EntitiesKeyed r.after)
    (hnames : RelationshipsNamed r.before) : r.KeepsMeaning := by
  intro kind ref v hheld hget
  obtain ⟨v', hv', hrefs⟩ := get_reconcile (keepsEmpty hbefore) (retarget_of_settled hbefore hafter) hheld hget
  refine ⟨v', hv', r.followRef (r.previous ref) kind, hrefs, fun el _ => ?_⟩
  have hexisted := @existed_iff kind _ (fun _ => nodup_previous hnames ref) el
  constructor
  · intro hnew
    rw [followRef, if_neg fun h => hnew (hexisted.mp h)]
  · intro hthere e hnamed
    rw [followRef, if_pos (hexisted.mpr hthere), entitiesOf_reconcile]
    exact retarget_spec hbefore hafter hnamed

def entityValue (dataSource schema name : String) : Value :=
  .object [("datasource", .text dataSource), ("name", .text name), ("schema", .text schema)]

def grantsTo (entities : List String) : Value :=
  .object [("grants", .list (entities.map fun e => .object [("entity", .text e)]))]

/-- Orders are renamed onto the ID of the sales there were, which a role names too. -/
def renamedOnto : Reconciliation where
  before :=
    ⟨[⟨⟨itemEntity, "shop.orders"⟩, entityValue "shop" "" "orders"⟩, ⟨⟨itemEntity, "shop.sales"⟩, entityValue "shop" "" "sales"⟩,
      ⟨⟨itemRole, "analyst"⟩, grantsTo ["orders", "sales"]⟩], by decide, by decide⟩
  after :=
    ⟨[⟨⟨itemEntity, "shop.sales"⟩, entityValue "shop" "" "sales"⟩, ⟨⟨itemRole, "analyst"⟩, grantsTo ["orders", "sales"]⟩],
      by decide, by decide⟩
  renames := ⟨[(⟨itemEntity, "shop.sales"⟩, ⟨itemEntity, "shop.orders"⟩)], by decide⟩

theorem references_keep_meaning_renamedOnto : renamedOnto.KeepsMeaning ∧
    renamedOnto.reconcile.get ⟨itemRole, "analyst"⟩ = some (grantsTo ["sales"]) :=
  ⟨references_keep_meaning renamedOnto (by decide) (by decide) (by decide), by decide⟩

/-- The parts of an ID move between the schema and the name. -/
def dotted : Reconciliation where
  before := ⟨[⟨⟨itemEntity, "a.b.c"⟩, entityValue "a" "b" "c"⟩, ⟨⟨itemRole, "analyst"⟩, grantsTo ["c"]⟩], by decide, by decide⟩
  after := ⟨[⟨⟨itemEntity, "a.b.c"⟩, entityValue "a" "" "b.c"⟩, ⟨⟨itemRole, "analyst"⟩, grantsTo ["c"]⟩], by decide, by decide⟩
  renames := ⟨[], by decide⟩

def joining (name : String) (targets : List String) : Value :=
  .object [("datasource", .text "shop"), ("name", .text "orders"),
    ("relationships", .list (targets.map fun t => .object [("name", .text name), ("target", .text t)]))]

/-- Two relationships of one name, and the target of the first is renamed. -/
def namedTwice : Reconciliation where
  before :=
    ⟨[⟨⟨itemEntity, "shop.orders"⟩, joining "to" ["old", "other"]⟩, ⟨⟨itemEntity, "shop.old"⟩, entityValue "shop" "" "old"⟩,
      ⟨⟨itemEntity, "shop.other"⟩, entityValue "shop" "" "other"⟩], by decide, by decide⟩
  after :=
    ⟨[⟨⟨itemEntity, "shop.orders"⟩, joining "to" ["old", "other"]⟩, ⟨⟨itemEntity, "shop.new"⟩, entityValue "shop" "" "new"⟩,
      ⟨⟨itemEntity, "shop.other"⟩, entityValue "shop" "" "other"⟩], by decide, by decide⟩
  renames := ⟨[(⟨itemEntity, "shop.new"⟩, ⟨itemEntity, "shop.old"⟩)], by decide⟩

lemma not_keepsMeaning (kind : RefKind) (ref : Ref) (el : Value) {rest : List Value} (e : String) (hheld : kind.HeldBy ref.kind)
    (hget : r.after.get ref = some (.object v)) (hlist : listAt (some v) kind.key = el :: rest)
    (hstays : r.reconcile.get ref = some (.object v)) (hthere : WasThere (r.previous ref) kind el)
    (hnamed : entityNaming.idOf (entitiesOf r.before) (kind.refOf el) = some e)
    (hleft : ¬ (r.Removed e ∨ r.Replaced e)) (hlost : entityNaming.idOf (entitiesOf r.reconcile) (kind.refOf el) = none) :
    ¬ r.KeepsMeaning := by
  intro h
  obtain ⟨v', hv', becomes, hrefs, hall⟩ := h kind ref v hheld hget
  obtain ⟨-, hkept⟩ := hall el (by rw [hlist]; exact mem_cons_self)
  obtain ⟨hgone, hnames⟩ := hkept hthere e hnamed
  obtain rfl : v = v' := by simpa using hstays.symm.trans hv'
  rw [refsOf, hlist, map_cons] at hrefs
  cases hbecomes : becomes el with
  | none => exact hleft (hgone.mp hbecomes)
  | some ref' =>
    rw [filterMap_cons_some hbecomes] at hrefs
    have hsame : kind.refOf el = ref' := (List.cons.inj hrefs).1
    rw [hsame, hnames ref' hbecomes] at hlost
    cases hlost

theorem keepsMeaning_needs_names :
    (entityNaming.ids (entitiesOf dotted.before)).Nodup ∧ (entityNaming.ids (entitiesOf dotted.after)).Nodup ∧
      ¬ dotted.KeepsMeaning ∧
    EntitiesKeyed namedTwice.before ∧ EntitiesKeyed namedTwice.after ∧ ¬ namedTwice.KeepsMeaning := by
  refine ⟨by decide, by decide, ?_, by decide, by decide, ?_⟩
  · exact not_keepsMeaning .grant ⟨itemRole, "analyst"⟩ (.object [("entity", .text "c")]) "a.b.c"
      (.inl rfl) rfl rfl (by decide) ⟨_, mem_cons_self, rfl⟩ (by decide) (by decide) (by decide)
  · exact not_keepsMeaning .relationship ⟨itemEntity, "shop.orders"⟩ (.object [("name", .text "to"), ("target", .text "old")])
      "shop.old" rfl rfl rfl (by decide) ⟨_, mem_cons_self, rfl, rfl⟩ (by decide) (by decide) (by decide)

end Reconciliation

end SqlMcpServer.Configapp
