import SqlMcpServer.Configapp.References
import SqlMcpServer.Workspace.Service

namespace SqlMcpServer.Configapp

open List

open Workspaces

namespace Reconciliation

inductive RoleSlot where
  | user
  /-- The roles of an action, in an entity's legacy access. -/
  | action (name : String)
  | fieldACL
  | rowPolicies
deriving DecidableEq, Repr

namespace RoleSlot

def item : RoleSlot → String
  | .user => itemUser
  | .action _ | .fieldACL | .rowPolicies => itemEntity

def entriesAt (m : Fields) (key : String) : Fields := ((m.property key).bind object).getD []

def namesIn (legacy : Fields) : RoleSlot → List String
  | .user => []
  | .action name => (listAt (some (entriesAt legacy "roles")) name).map stringOf
  | .fieldACL => (entriesAt legacy "fieldACL").map Prod.fst
  | .rowPolicies => (entriesAt legacy "rowPolicies").map Prod.fst

def names (m : Fields) : RoleSlot → List String
  | .user => (listAt (some m) "roles").map stringOf
  | slot => slot.namesIn (entriesAt m "legacyAccess")

end RoleSlot

def roleBecame (names : Moves) (name : String) : Option String := (names.entry name).getD (some name)

def Followed (moves : Moves) (names out : List String) : Prop :=
  ∀ m, m ∈ out ↔ ∃ n ∈ names, roleBecame moves n = some m

variable {r : Reconciliation} {moves : Moves} {names out : List String}

lemma followed_of_unmoved (h : ∀ n ∈ names, moves.entry n = none) : Followed moves names names := by
  intro m
  constructor
  · intro hm
    exact ⟨m, hm, by rw [roleBecame, h m hm]; rfl⟩
  · rintro ⟨n, hn, hbecame⟩
    rw [roleBecame, h n hn] at hbecame
    exact Option.some.inj hbecame ▸ hn

/-- What the loop over a list has put there, and that a name a rename put there is there. -/
structure Looped (r : Reconciliation) (seen : List Value) (s : Names) : Prop where
  followed : Followed r.roles (seen.map stringOf) (s.next.map stringOf)
  renamed : ∀ m ∈ s.renamed, m ∈ s.next.map stringOf
  unchanged : s.changed = false → s.next = seen

lemma looped_nil : Looped r [] {} := ⟨fun m => by simp, by simp, fun _ => rfl⟩

lemma followed_concat {seen : List Value} {n : Value} (h : Followed r.roles (seen.map stringOf) names)
    (hout : ∀ m, m ∈ out ↔ m ∈ names ∨ roleBecame r.roles (stringOf n) = some m) :
    Followed r.roles ((seen ++ [n]).map stringOf) out := by
  intro m
  rw [hout, h m]
  simp only [map_append, map_cons, map_nil, mem_append, mem_singleton]
  constructor
  · rintro (⟨k, hk, hm⟩ | hm)
    · exact ⟨k, .inl hk, hm⟩
    · exact ⟨_, .inr rfl, hm⟩
  · rintro ⟨k, hk | rfl, hm⟩
    · exact .inl ⟨k, hk, hm⟩
    · exact .inr hm

lemma looped_roleName {seen : List Value} {s : Names} (h : Looped r seen s) (n : Value) :
    Looped r (seen ++ [n]) (r.roleName s n) := by
  unfold roleName
  split
  · rename_i hentry
    have hbecame : roleBecame r.roles (stringOf n) = some (stringOf n) := by rw [roleBecame, hentry]; rfl
    split_ifs with hrenamed
    · refine ⟨followed_concat h.followed fun m => ?_, h.renamed, fun hc => by cases hc⟩
      rw [hbecame]
      refine ⟨.inl, fun hm => hm.elim id fun hm => ?_⟩
      exact Option.some.inj hm ▸ h.renamed _ hrenamed
    · refine ⟨followed_concat h.followed fun m => ?_, fun m hm => ?_, fun hc => by rw [h.unchanged hc]⟩
      · simp [hbecame, eq_comm]
      · simp [h.renamed m hm]
  · rename_i to_ hentry
    have hbecame : roleBecame r.roles (stringOf n) = some to_ := by rw [roleBecame, hentry]; rfl
    split_ifs with hlisted
    · refine ⟨followed_concat h.followed fun m => ?_, h.renamed, fun hc => by cases hc⟩
      rw [hbecame]
      refine ⟨.inl, fun hm => hm.elim id fun hm => ?_⟩
      exact Option.some.inj hm ▸ mem_map.mpr ⟨_, hlisted, rfl⟩
    · refine ⟨followed_concat h.followed fun m => ?_, fun m hm => ?_, fun hc => by cases hc⟩
      · simp [hbecame, eq_comm]
      · rcases mem_append.mp hm with hm | hm
        · simp [h.renamed m hm]
        · simp [mem_singleton.mp hm]
  · rename_i hentry
    have hbecame : roleBecame r.roles (stringOf n) = none := by rw [roleBecame, hentry]; rfl
    refine ⟨followed_concat h.followed fun m => ?_, h.renamed, fun hc => by cases hc⟩
    simp [hbecame]

lemma looped_foldl {seen : List Value} {s : Names} (h : Looped r seen s) (l : List Value) :
    Looped r (seen ++ l) (l.foldl r.roleName s) := by
  induction l generalizing seen s with
  | nil => simpa using h
  | cons n l ih => simpa using ih (looped_roleName h n)

lemma followed_roleNames (l : List Value) : Followed r.roles (l.map stringOf) ((r.roleNames l).1.map stringOf) :=
  (looped_foldl looped_nil l).followed

lemma roleNames_of_unchanged {l : List Value} (h : (r.roleNames l).2 = false) : (r.roleNames l).1 = l :=
  (looped_foldl looped_nil l).unchanged h

variable {m : Fields} {key : String}

lemma mem_keys_put {k : String} {v : Value} : k ∈ (m.put key v).map Prod.fst ↔ k = key ∨ k ∈ m.map Prod.fst := by
  induction m with
  | nil => simp [Fields.put]
  | cons e m ih =>
    obtain ⟨l, w⟩ := e
    rw [Fields.put]
    split_ifs with hkey hlt
    · subst hkey
      simp
    · simp
    · simp only [map_cons, mem_cons, ih]
      tauto

lemma mem_keys_foldl (m out : Fields) (k : String) :
    k ∈ (m.foldl (moveEntry moves) out).map Prod.fst ↔
      k ∈ out.map Prod.fst ∨ ∃ n ∈ m.map Prod.fst, moves.entry n = some (some k) := by
  induction m generalizing out with
  | nil => simp
  | cons e m ih =>
    rw [foldl_cons, ih, moveEntry]
    simp only [map_cons, mem_cons, exists_eq_or_imp]
    split
    · rename_i to_ hentry
      rw [mem_keys_put, hentry, Option.some.injEq, Option.some.injEq, eq_comm]
      tauto
    · rename_i hentry
      have hnot : ¬ moves.entry e.1 = some (some k) := hentry k
      tauto

lemma followed_renameKeys (m : Fields) : Followed moves (m.map Prod.fst) ((renameKeys moves m).map Prod.fst) := by
  intro k
  rw [renameKeys, mem_keys_foldl]
  constructor
  · rintro (hk | ⟨n, hn, hentry⟩)
    · obtain ⟨e, he, rfl⟩ := mem_map.mp hk
      obtain ⟨hmem, hentry⟩ := mem_filter.mp he
      refine ⟨e.1, mem_map_of_mem hmem, ?_⟩
      rw [roleBecame, of_decide_eq_true hentry]
      rfl
    · exact ⟨n, hn, by rw [roleBecame, hentry]; rfl⟩
  · rintro ⟨n, hn, hbecame⟩
    unfold roleBecame at hbecame
    cases hentry : moves.entry n with
    | none =>
      rw [hentry] at hbecame
      obtain rfl := Option.some.inj hbecame
      obtain ⟨e, he, rfl⟩ := mem_map.mp hn
      exact .inl (mem_map_of_mem (mem_filter.mpr ⟨he, decide_eq_true hentry⟩))
    | some to_ =>
      rw [hentry, Option.getD_some] at hbecame
      exact .inr ⟨n, hn, by rw [hentry, hbecame]⟩

open RoleSlot (entriesAt)

lemma followed_nil : Followed moves [] [] := by
  intro m
  simp

lemma entriesAt_put (m : Fields) (key : String) (entries : Fields) : entriesAt (m.put key (.object entries)) key = entries := by
  simp [entriesAt, Fields.property_put, object]

lemma entriesAt_congr {m' : Fields} (h : m'.property key = m.property key) :
    entriesAt m' key = entriesAt m key := by
  rw [entriesAt, entriesAt, h]

lemma entriesAt_eq_nil (h : ∀ entries, m.property key = some (.object entries) → False) :
    entriesAt m key = [] := by
  unfold entriesAt
  cases hv : m.property key with
  | none => rfl
  | some v =>
    cases v with
    | object entries => exact absurd hv (h entries)
    | _ => rfl

lemma writes_renameKeysAt (key : String) : Writes key (renameKeysAt key moves) := by
  intro v k hk
  unfold renameKeysAt
  split
  · split_ifs
    · exact property_put_ne hk
    · rfl
  · rfl

lemma followed_renameKeysAt (m : Fields) (key : String) :
    Followed moves ((entriesAt m key).map Prod.fst) ((entriesAt (renameKeysAt key moves m).1 key).map Prod.fst) := by
  unfold renameKeysAt
  split
  · rename_i byName hentries
    have hm : entriesAt m key = byName := by simp [entriesAt, hentries, object]
    split_ifs with hany
    · rw [entriesAt_put, hm]
      exact followed_renameKeys byName
    · rw [hm]
      apply followed_of_unmoved
      intro n hn
      obtain ⟨e, he, rfl⟩ := mem_map.mp hn
      by_contra hmoved
      exact hany (List.any_eq_true.mpr ⟨e, he, Option.isSome_iff_ne_none.mpr hmoved⟩)
  · rename_i hentries
    rw [entriesAt_eq_nil hentries]
    exact followed_nil

lemma renameKeysAt_of_unchanged (h : (renameKeysAt key moves m).2 = false) :
    (renameKeysAt key moves m).1 = m := by
  unfold renameKeysAt at h ⊢
  split
  · split_ifs with hany
    · simp_all
    · rfl
  · rfl

lemma roleList_of_unchanged {v : Value} (h : (r.roleList v).2 = false) : (r.roleList v).1 = v := by
  unfold roleList at h ⊢
  split
  · split_ifs with hchanged
    · simp_all
    · rfl
  · rfl

def namesOf : Option Value → List String
  | some (.list l) => l.map stringOf
  | _ => []

lemma followed_roleList (v : Value) : Followed r.roles (namesOf (some v)) (namesOf (some (r.roleList v).1)) := by
  cases v with
  | list l =>
    simp only [roleList]
    split_ifs with hchanged
    · exact followed_roleNames l
    · have hsame := followed_roleNames (r := r) l
      rwa [roleNames_of_unchanged (by simpa using hchanged)] at hsame
  | _ => exact followed_nil

lemma property_roleLists (byAction : Fields) (action : String) :
    Fields.property (r.roleLists byAction).1 action = (byAction.property action).map fun v => (r.roleList v).1 := by
  simp only [roleLists]
  induction byAction with
  | nil => rfl
  | cons e m ih =>
    rw [map_cons, Fields.property, Fields.property, ih]
    split_ifs <;> rfl

lemma roleLists_of_unchanged {byAction : Fields} (h : (r.roleLists byAction).2 = false) : (r.roleLists byAction).1 = byAction := by
  simp only [roleLists, any_eq_false, Bool.not_eq_true] at h ⊢
  refine (map_congr_left fun e he => ?_).trans (map_id _)
  rw [roleList_of_unchanged (h e he)]
  rfl

lemma listAt_names (m : Fields) (key : String) : (listAt (some m) key).map stringOf = namesOf (m.property key) := by
  simp only [listAt, Option.bind_some]
  cases m.property key with
  | none => rfl
  | some v => cases v <;> rfl

lemma followed_roleLists (byAction : Fields) (action : String) :
    Followed r.roles (namesOf (byAction.property action)) (namesOf (Fields.property (r.roleLists byAction).1 action)) := by
  rw [property_roleLists]
  cases byAction.property action with
  | none => exact followed_nil
  | some v => exact followed_roleList v

lemma writes_roleListsAt : Writes "roles" r.roleListsAt := by
  intro v k hk
  unfold roleListsAt
  split
  · split_ifs
    · exact property_put_ne hk
    · rfl
  · rfl

lemma roleListsAt_of_unchanged {legacy : Fields} (h : (r.roleListsAt legacy).2 = false) : (r.roleListsAt legacy).1 = legacy := by
  unfold roleListsAt at h ⊢
  split
  · split_ifs with hchanged
    · simp_all
    · rfl
  · rfl

lemma followed_roleListsAt (legacy : Fields) (action : String) :
    Followed r.roles (namesOf ((entriesAt legacy "roles").property action))
      (namesOf ((entriesAt (r.roleListsAt legacy).1 "roles").property action)) := by
  have hsplit : entriesAt (r.roleListsAt legacy).1 "roles" = (r.roleLists (entriesAt legacy "roles")).1 := by
    unfold roleListsAt
    split
    · rename_i byAction hroles
      have hm : entriesAt legacy "roles" = byAction := by simp [entriesAt, hroles, object]
      rw [hm]
      split_ifs with hchanged
      · exact entriesAt_put _ _ _
      · rw [roleLists_of_unchanged (by simpa using hchanged), hm]
    · rename_i hroles
      rw [entriesAt_eq_nil hroles]
      rfl
  rw [hsplit]
  exact followed_roleLists _ action

lemma legacyAccess_eq (legacy : Fields) : (r.legacyAccess legacy).1 =
    (renameKeysAt "rowPolicies" r.roles (renameKeysAt "fieldACL" r.roles (r.roleListsAt legacy).1).1).1 := rfl

lemma followed_legacyAccess (legacy : Fields) (slot : RoleSlot) :
    Followed r.roles (slot.namesIn legacy) (slot.namesIn (r.legacyAccess legacy).1) := by
  rw [legacyAccess_eq]
  cases slot with
  | user => exact followed_nil
  | action name =>
    simp only [RoleSlot.namesIn, listAt_names]
    rw [entriesAt_congr (writes_renameKeysAt "rowPolicies" _ "roles" (by decide)),
      entriesAt_congr (writes_renameKeysAt "fieldACL" _ "roles" (by decide))]
    exact followed_roleListsAt legacy name
  | fieldACL =>
    simp only [RoleSlot.namesIn]
    rw [entriesAt_congr (writes_renameKeysAt "rowPolicies" _ "fieldACL" (by decide)),
      ← entriesAt_congr (writes_roleListsAt legacy "fieldACL" (by decide))]
    exact followed_renameKeysAt _ "fieldACL"
  | rowPolicies =>
    simp only [RoleSlot.namesIn]
    rw [← entriesAt_congr (writes_roleListsAt legacy "rowPolicies" (by decide)),
      ← entriesAt_congr (writes_renameKeysAt "fieldACL" _ "rowPolicies" (by decide))]
    exact followed_renameKeysAt _ "rowPolicies"

lemma legacyAccess_of_unchanged {legacy : Fields} (h : (r.legacyAccess legacy).2 = false) : (r.legacyAccess legacy).1 = legacy := by
  simp only [legacyAccess, Bool.or_eq_false_iff] at h
  obtain ⟨⟨hlists, hfields⟩, hrows⟩ := h
  rw [legacyAccess_eq, renameKeysAt_of_unchanged hrows, renameKeysAt_of_unchanged hfields, roleListsAt_of_unchanged hlists]

variable {slot : RoleSlot}

lemma names_congr {m' : Fields} (hroles : slot = .user → m'.property "roles" = m.property "roles")
    (hlegacy : slot ≠ .user → m'.property "legacyAccess" = m.property "legacyAccess") : slot.names m' = slot.names m := by
  cases slot with
  | user => exact congrArg (List.map stringOf) (listAt_congr (hroles rfl))
  | action name => exact congrArg (RoleSlot.namesIn · (.action name)) (entriesAt_congr (hlegacy (by simp)))
  | fieldACL => exact congrArg (RoleSlot.namesIn · .fieldACL) (entriesAt_congr (hlegacy (by simp)))
  | rowPolicies => exact congrArg (RoleSlot.namesIn · .rowPolicies) (entriesAt_congr (hlegacy (by simp)))

lemma names_eq_namesIn (m : Fields) (h : slot ≠ .user) :
    slot.names m = slot.namesIn (entriesAt m "legacyAccess") := by
  cases slot with
  | user => exact absurd rfl h
  | _ => rfl

lemma followed_legacyRoles (v : Fields) (hslot : slot ≠ .user) :
    Followed r.roles (slot.names v) (slot.names (r.legacyRoles v).1) := by
  rw [names_eq_namesIn _ hslot, names_eq_namesIn _ hslot]
  unfold legacyRoles
  split
  · rename_i legacy hlegacy
    have hm : entriesAt v "legacyAccess" = legacy := by simp [entriesAt, hlegacy, object]
    rw [hm]
    split_ifs with hroles hchanged
    · rw [hm]
      exact followed_of_unmoved fun n _ => by rw [hroles]; rfl
    · rw [entriesAt_put]
      exact followed_legacyAccess legacy slot
    · have hsame := followed_legacyAccess (r := r) legacy slot
      rw [legacyAccess_of_unchanged (by simpa using hchanged)] at hsame
      rwa [hm]
  · rename_i hlegacy
    rw [entriesAt_eq_nil hlegacy]
    cases slot <;> exact followed_nil

variable {v : Fields}

lemma legacyRoles_of_unchanged (h : (r.legacyRoles v).2 = false) : (r.legacyRoles v).1 = v := by
  unfold legacyRoles at h ⊢
  split
  · split_ifs with hroles hchanged
    · rfl
    · simp_all
    · rfl
  · rfl

lemma followed_userRoles (v : Fields) : Followed r.roles (RoleSlot.user.names v) (RoleSlot.user.names (r.userRoles v).1) := by
  simp only [RoleSlot.names, listAt_names]
  unfold userRoles
  split
  · rename_i roles hroles
    rw [hroles]
    split_ifs with hchanged
    · rw [Fields.property_put, if_pos rfl]
      exact followed_roleNames roles
    · have hsame := followed_roleNames (r := r) roles
      rw [roleNames_of_unchanged (by simpa using hchanged)] at hsame
      rwa [hroles]
  · rename_i hroles
    have hnil : namesOf (v.property "roles") = [] := by
      unfold namesOf
      split
      · rename_i l hl
        exact absurd hl (hroles l)
      · rfl
    rw [hnil]
    exact followed_nil

lemma userRoles_of_unchanged (h : (r.userRoles v).2 = false) : (r.userRoles v).1 = v := by
  unfold userRoles at h ⊢
  split
  · split_ifs with hchanged
    · simp_all
    · rfl
  · rfl

def linked (r : Reconciliation) (key : String) (v : Fields) : Fields :=
  (r.affects (r.relationships (r.keepSource ⟨itemEntity, key⟩ v (r.previous ⟨itemEntity, key⟩)).1
    (r.previous ⟨itemEntity, key⟩)).1 (r.previous ⟨itemEntity, key⟩)).1

lemma property_linked (key : String) (v : Fields) : (r.linked key v).property "legacyAccess" = v.property "legacyAccess" :=
  (writes_references .affects _ _ _ (by decide)).trans
    ((writes_references .relationship _ _ _ (by decide)).trans (property_keepSource (by decide)))

lemma legacyRoles_linked_unchanged (h : (r.item ⟨itemEntity, key⟩ v).2 = false) :
    (r.legacyRoles (r.linked key v)).2 = false := by
  rw [item, if_neg (show itemEntity ≠ itemRole by decide), if_neg (show itemEntity ≠ itemUser by decide), if_pos rfl] at h
  simp only [Bool.or_eq_false_iff] at h
  exact h.2

lemma followed_item {ref : Ref} (hitem : ref.kind = slot.item) (v : Fields) :
    Followed r.roles (slot.names v) (slot.names (if (r.item ref v).2 then (r.item ref v).1 else v)) := by
  obtain ⟨kind, key⟩ := ref
  obtain rfl : kind = slot.item := hitem
  by_cases hslot : slot = .user
  · subst hslot
    have hgrants : ((r.grants v (r.previous ⟨itemUser, key⟩)).1).property "roles" = v.property "roles" :=
      writes_references .grant _ v "roles" (by decide)
    have hfollowed := followed_userRoles (r := r) (r.grants v (r.previous ⟨itemUser, key⟩)).1
    rw [names_congr (fun _ => hgrants) (fun h => absurd rfl h)] at hfollowed
    rw [show RoleSlot.user.item = itemUser from rfl, item_user]
    split_ifs with hchanged
    · exact hfollowed
    · rw [userRoles_of_unchanged (Bool.or_eq_false_iff.mp (by simpa using hchanged)).2,
        names_congr (fun _ => hgrants) (fun h => absurd rfl h)] at hfollowed
      exact hfollowed
  · have hentity : slot.item = itemEntity := by cases slot <;> first | rfl | exact absurd rfl hslot
    have hlinked := names_congr (fun h => absurd h hslot) (fun _ => property_linked (r := r) key v)
    have hfollowed := followed_legacyRoles (r := r) (r.linked key v) hslot
    rw [hlinked] at hfollowed
    rw [hentity]
    split_ifs with hchanged
    · rw [item_entity]
      exact hfollowed
    · rw [legacyRoles_of_unchanged (legacyRoles_linked_unchanged (by simpa using hchanged)), hlinked] at hfollowed
      exact hfollowed

lemma names_reconcile {ref : Ref} (hitem : ref.kind = slot.item)
    (hget : r.after.get ref = some (.object v)) :
    ∃ v', r.reconcile.get ref = some (.object v') ∧ Followed r.roles (slot.names v) (slot.names v') := by
  have hpruned : ∀ out u, slot.names (if (r.pruneGrants out ref u).2 then (r.pruneGrants out ref u).1 else u) = slot.names u := by
    intro out u
    split_ifs
    · exact names_congr (fun _ => writes_pruneGrants out ref u _ (by decide)) fun _ => writes_pruneGrants out ref u _ (by decide)
    · rfl
  unfold reconcile
  by_cases hs : r.Settled
  · rw [if_pos hs, pruneFields, get_edit, hget, Option.map_some, edited_object]
    refine ⟨_, rfl, ?_⟩
    rw [hpruned]
    exact followed_of_unmoved fun n _ => by rw [hs.2.1]; rfl
  · rw [if_neg hs, pruneFields, get_edit, get_edit, hget, Option.map_some, Option.map_some, edited_object, edited_object]
    refine ⟨_, rfl, ?_⟩
    rw [hpruned]
    exact followed_item hitem v

lemma source_of_target {rn : Renames} {kind to_ : String} (h : rn.target kind key = some to_) :
    rn.source ⟨kind, to_⟩ = some ⟨kind, key⟩ := by
  obtain ⟨⟨t, f⟩, hfind, rfl⟩ := Option.map_eq_some_iff.mp h
  have hp := find?_some hfind
  simp only [decide_eq_true_eq] at hp
  have hmem : (t, f) ∈ rn.entries := mem_reverse.mp (mem_of_find?_eq_some hfind)
  have hlookup : ∀ l : List (Ref × Ref), (l.map Prod.fst).Nodup → (t, f) ∈ l → l.lookup t = some f := by
    intro l hnodup hmem
    induction l with
    | nil => cases hmem
    | cons e l ih =>
      rw [map_cons, nodup_cons] at hnodup
      rcases mem_cons.mp hmem with rfl | hmem
      · exact lookup_cons_self
      · have hne : t ≠ e.1 := fun heq => hnodup.1 (heq ▸ mem_map_of_mem hmem)
        rw [lookup_cons, beq_eq_false_iff_ne.mpr hne]
        exact ih hnodup.2 hmem
  have ht : (⟨kind, t.key⟩ : Ref) = t := by rw [← hp.1]
  rw [ht, Renames.source, hlookup _ rn.distinct hmem, hp.2]

/-- The role of before that a role is after the write: the one it was renamed from, or that of its
name not renamed away; none if the write made it. -/
def roleOrigin (r : Reconciliation) (name : String) : Option String :=
  match r.renames.source ⟨itemRole, name⟩ with
  | some from_ => if from_.kind = itemRole then some from_.key else none
  | none => if r.before.get ⟨itemRole, name⟩ ≠ none ∧ r.renames.target itemRole name = none then some name else none

variable {name : String}

lemma roleOrigin_of_target {to_ : String} (h : r.renames.target itemRole name = some to_) : r.roleOrigin to_ = some name := by
  rw [roleOrigin, source_of_target h]
  exact if_pos rfl

def listedBefore (r : Reconciliation) (slot : RoleSlot) (ref : Ref) : List String := slot.names ((r.previous ref).getD [])

lemma removed_removes {kind : String} : ∀ e ∈ r.removed kind, e.2 = none := by
  intro e he
  obtain ⟨it, -, hit⟩ := mem_filterMap.mp he
  split_ifs at hit
  cases hit
  rfl

lemma mem_removed {kind : String} : key ∈ (r.removed kind).map Prod.fst ↔
    r.before.get ⟨kind, key⟩ ≠ none ∧ r.after.get ⟨kind, key⟩ = none ∧ r.renames.target kind key = none := by
  rw [removed, map_filterMap, mem_filterMap]
  simp only [Renames.entry_within, Option.map_eq_none_iff]
  constructor
  · rintro ⟨it, hit, hkey⟩
    split_ifs at hkey with hcond
    · obtain rfl := Option.some.inj hkey
      have href : (⟨kind, it.ref.key⟩ : Ref) = it.ref := by rw [← hcond.2.1]
      exact ⟨href ▸ Snapshot.get_ne_none hit, href ▸ hcond.1, hcond.2.2⟩
    · cases hkey
  · rintro ⟨hbefore, hafter, htarget⟩
    obtain ⟨v, hv⟩ := Option.ne_none_iff_exists'.mp hbefore
    refine ⟨⟨⟨kind, key⟩, v⟩, Snapshot.get_eq_some.mp hv, ?_⟩
    rw [if_pos ⟨hafter, rfl, htarget⟩]
    rfl

lemma roleBecame_renamed {to_ : String} (h : r.renames.target itemRole name = some to_) :
    roleBecame r.roles name = some to_ := by
  have hkept : name ∉ (r.removed itemRole).map Prod.fst := fun hmem => by
    rw [(mem_removed.mp hmem).2.2] at h
    cases h
  rw [roleBecame, roles, entry_append, entry_of_removes removed_removes, if_neg hkept, Renames.entry_within, h]
  rfl

lemma roleBecame_stays (h : r.renames.target itemRole name = none) :
    roleBecame r.roles name =
      if r.before.get ⟨itemRole, name⟩ ≠ none ∧ r.after.get ⟨itemRole, name⟩ = none then none else some name := by
  rw [roleBecame, roles, entry_append, entry_of_removes removed_removes, Renames.entry_within, h]
  by_cases hgone : r.before.get ⟨itemRole, name⟩ ≠ none ∧ r.after.get ⟨itemRole, name⟩ = none
  · rw [if_pos hgone, if_pos (mem_removed.mpr ⟨hgone.1, hgone.2, h⟩)]
    rfl
  · rw [if_neg hgone, if_neg fun hmem => hgone ⟨(mem_removed.mp hmem).1, (mem_removed.mp hmem).2.1⟩]
    rfl

/-- In every item the roles a list names are roles it named before, but for names the write put
there; and a role it named that stays or is renamed is named. -/
def KeepsRoles (r : Reconciliation) : Prop :=
  ∀ (slot : RoleSlot) (ref : Ref) (v : Fields), ref.kind = slot.item → r.after.get ref = some (.object v) →
    ∃ v', r.reconcile.get ref = some (.object v') ∧
      (∀ m ∈ slot.names v', r.after.get ⟨itemRole, m⟩ ≠ none →
        (∃ n ∈ r.listedBefore slot ref, r.roleOrigin m = some n) ∨ (m ∈ slot.names v ∧ m ∉ r.listedBefore slot ref)) ∧
      ∀ n ∈ slot.names v, n ∈ r.listedBefore slot ref →
        (∀ to_, r.renames.target itemRole n = some to_ → to_ ∈ slot.names v') ∧
        (r.renames.target itemRole n = none → r.renames.source ⟨itemRole, n⟩ = none → r.after.get ⟨itemRole, n⟩ ≠ none →
          n ∈ slot.names v')

/-- No name a list keeps is taken over: a role of that name after the write is the role it was,
or was renamed from one the list named too. And no name the write puts into a list is one it
renames. -/
def Untaken (r : Reconciliation) : Prop :=
  ∀ (slot : RoleSlot) (ref : Ref) (v : Fields), ref.kind = slot.item → r.after.get ref = some (.object v) →
    ∀ n ∈ slot.names v,
      (n ∈ r.listedBefore slot ref → r.renames.target itemRole n = none → r.after.get ⟨itemRole, n⟩ ≠ none →
        (r.renames.source ⟨itemRole, n⟩ = none ∧ r.before.get ⟨itemRole, n⟩ ≠ none) ∨
          ∃ k ∈ r.listedBefore slot ref, r.renames.source ⟨itemRole, n⟩ = some ⟨itemRole, k⟩) ∧
      ∀ to_, r.renames.target itemRole n = some to_ → r.after.get ⟨itemRole, to_⟩ ≠ none →
        n ∈ r.listedBefore slot ref ∨ (to_ ∈ slot.names v ∧ to_ ∉ r.listedBefore slot ref)

lemma roleBecame_of_there (h : r.renames.target itemRole name = none)
    (hthere : r.after.get ⟨itemRole, name⟩ ≠ none) : roleBecame r.roles name = some name := by
  rw [roleBecame_stays h, if_neg fun hgone => hthere hgone.2]

lemma untaken_of_keepsRoles : r.KeepsRoles → r.Untaken := by
  intro hkeeps slot ref v hitem hget n hn
  obtain ⟨v', hv', hknown, -⟩ := hkeeps slot ref v hitem hget
  obtain ⟨v'', hv'', hfollowed⟩ := names_reconcile hitem hget
  obtain rfl : v' = v'' := by simpa using hv'.symm.trans hv''
  constructor
  · intro hlisted htarget hthere
    have hmem : n ∈ slot.names v' := (hfollowed n).mpr ⟨n, hn, roleBecame_of_there htarget hthere⟩
    rcases hknown n hmem hthere with ⟨k, hk, horigin⟩ | ⟨-, hnew⟩
    · unfold roleOrigin at horigin
      split at horigin
      · rename_i from_ hsource
        split_ifs at horigin with hkind
        refine .inr ⟨k, hk, ?_⟩
        rw [hsource, ← Option.some.inj horigin, ← hkind]
      · rename_i hsource
        split_ifs at horigin with hbefore
        exact .inl ⟨hsource, hbefore.1⟩
    · exact absurd hlisted hnew
  · intro to_ htarget hthere
    have hmem : to_ ∈ slot.names v' := (hfollowed to_).mpr ⟨n, hn, roleBecame_renamed htarget⟩
    rcases hknown to_ hmem hthere with ⟨k, hk, horigin⟩ | hnew
    · rw [roleOrigin_of_target htarget] at horigin
      exact .inl (Option.some.inj horigin ▸ hk)
    · exact .inr hnew

lemma keepsRoles_of_untaken : r.Untaken → r.KeepsRoles := by
  intro huntaken slot ref v hitem hget
  obtain ⟨v', hv', hfollowed⟩ := names_reconcile hitem hget
  refine ⟨v', hv', fun m hm hthere => ?_, fun n hn _ => ⟨fun to_ htarget => ?_, fun htarget _ hthere => ?_⟩⟩
  · obtain ⟨n, hn, hbecame⟩ := (hfollowed m).mp hm
    obtain ⟨hstays, hmoved⟩ := huntaken slot ref v hitem hget n hn
    cases htarget : r.renames.target itemRole n with
    | some to_ =>
      obtain rfl : to_ = m := by simpa [roleBecame_renamed htarget] using hbecame
      exact (hmoved to_ htarget hthere).imp (fun hlisted => ⟨n, hlisted, roleOrigin_of_target htarget⟩) id
    | none =>
      rw [roleBecame_stays htarget] at hbecame
      split_ifs at hbecame
      obtain rfl := Option.some.inj hbecame
      by_cases hlisted : n ∈ r.listedBefore slot ref
      · rcases hstays hlisted htarget hthere with ⟨hsource, hbefore⟩ | ⟨k, hk, hsource⟩
        · refine .inl ⟨n, hlisted, ?_⟩
          rw [roleOrigin, hsource]
          exact if_pos ⟨hbefore, htarget⟩
        · refine .inl ⟨k, hk, ?_⟩
          rw [roleOrigin, hsource]
          exact if_pos rfl
      · exact .inr ⟨hn, hlisted⟩
  · exact (hfollowed to_).mpr ⟨n, hn, roleBecame_renamed htarget⟩
  · exact (hfollowed n).mpr ⟨n, hn, roleBecame_of_there htarget hthere⟩

def roleOf (name : String) (entities : List String) : Value :=
  .object [("grants", .list (entities.map fun e => .object [("entity", .text e)])), ("name", .text name)]

def userOf (name : String) (roles : List String) : Value :=
  .object [("name", .text name), ("roles", .list (roles.map .text))]

/-- Bob views; the administrators may pay. -/
def staff : Snapshot :=
  ⟨[⟨⟨itemRole, "admin"⟩, roleOf "admin" ["payments"]⟩, ⟨⟨itemRole, "viewer"⟩, roleOf "viewer" []⟩,
    ⟨⟨itemUser, "bob"⟩, userOf "bob" ["viewer"]⟩], by decide, by decide⟩

/-- The role of the administrators is renamed onto that of the viewers. -/
def takeover : List Write :=
  [⟨⟨itemRole, "admin"⟩, none, some (roleOf "admin" ["payments"]), none⟩,
    ⟨⟨itemRole, "viewer"⟩, some (roleOf "viewer" ["payments"]), some (roleOf "viewer" []), some ⟨itemRole, "admin"⟩⟩]

def takeoverBatch : BatchState := batch plainService.schema staff (renamesLast takeover)

def takenOver : Reconciliation where
  before := staff
  after := staff.apply takeoverBatch.values takeoverBatch.refs
  renames := ⟨[(⟨itemRole, "viewer"⟩, ⟨itemRole, "admin"⟩)], by decide⟩

end Reconciliation

end SqlMcpServer.Configapp
