import SqlMcpServer.Rbac
import SqlMcpServer.Relalg.Truth

namespace SqlMcpServer.Rbac

open List
open Relalg Interp

def Lists (visible : List Attribute) (listed : List String) (field : String) : Prop :=
  field ∈ listed ∨ ∃ a ∈ visible, a.hasName field = true ∧ ∃ h ∈ listed, a.hasName h = true

def Covers (visible : List Attribute) (g : Grant) (read write : List String) : Prop :=
  ∀ acl, g.fields = some acl →
    (∀ f ∈ read, Lists visible acl.read f) ∧ (∀ f ∈ write, Lists visible acl.write f)

variable {g : Grant}

namespace GrantAuthorizer
variable (a : GrantAuthorizer)

def rolesOf (principal : String) : List String :=
  match a.policy.principals.lookup principal with
  | some p => p.roles
  | none => [principal]

inductive Holds (e : Entity) (principal : String) : Grant → Prop where
  | direct {p : Principal} {g : Grant} (hp : a.policy.principals.lookup principal = some p)
      (hg : g ∈ lookupList p.grants e.name) : Holds e principal g
  | role {r : String} {g : Grant} (hr : r ∈ a.rolesOf principal)
      (hg : g ∈ lookupList (lookupList a.policy.roles r) e.name) : Holds e principal g
  | entity {r : String} {g : Grant} (hr : r ∈ a.rolesOf principal)
      (hg : a.entityRoleGrant e r = some g) : Holds e principal g

/-- A grant the authorizer may use: the principal, which is named, holds it and it allows
the action. -/
def Candidate (e : Entity) (principal : String) (action : Action) (g : Grant) : Prop :=
  principal ≠ "" ∧ a.Holds e principal g ∧ g.allows action = true

lemma compileRoles_lookup (e : Entity) (rs : List String) (byRole : List (String × Grant)) (role : String)
    (hdone : ∀ r g, byRole.lookup r = some g → a.entityRoleGrant e r = some g) :
    (a.compileRoles e rs byRole).lookup role =
      if (byRole.lookup role).isSome ∨ role ∈ rs.map a.normalize then a.entityRoleGrant e role else none := by
  induction rs generalizing byRole with
  | nil =>
    rw [compileRoles]
    cases h : byRole.lookup role with
    | none => simp
    | some g => simp [hdone role g h]
  | cons r rs ih =>
    simp only [compileRoles, map_cons, mem_cons]
    by_cases hr : (byRole.lookup (a.normalize r)).isSome
    · rw [if_pos hr, ih byRole hdone]
      by_cases hrole : role = a.normalize r
      · simp [hrole, hr]
      · simp only [hrole, false_or]
    · rw [if_neg hr]
      cases hg : a.entityRoleGrant e (a.normalize r) with
      | none =>
        rw [ih byRole hdone]
        by_cases hrole : role = a.normalize r
        · subst hrole
          simp [hg]
        · simp only [hrole, false_or]
      | some g =>
        rw [ih]
        · by_cases hrole : role = a.normalize r
          · simp [hrole]
          · have hb : (role == a.normalize r) = false := by simpa using hrole
            simp only [lookup_cons, hb, hrole, false_or]
        · intro q g' hq
          rw [lookup_cons] at hq
          by_cases hqr : q = a.normalize r
          · subst hqr
            simp only [beq_self_eq_true, Option.some.injEq] at hq
            rw [hg, hq]
          · have hb : (q == a.normalize r) = false := by simpa using hqr
            simp only [hb] at hq
            exact hdone q g' hq

lemma entityRoleGrant_role {e : Entity} {role : String} (h : a.entityRoleGrant e role = some g) :
    role ∈ (e.role.flatMap (·.2)).map a.normalize := by
  simp only [entityRoleGrant] at h
  split at h
  · cases h
  · rename_i hne
    obtain ⟨action, haction⟩ := exists_mem_of_ne_nil _ hne
    obtain ⟨entry, hentry, -⟩ := mem_map.mp haction
    obtain ⟨hmem, hany⟩ := mem_filter.mp hentry
    obtain ⟨r, hr, hrole⟩ := List.any_eq_true.mp hany
    refine mem_map.mpr ⟨r, mem_flatMap.mpr ⟨entry, hmem, hr⟩, by simpa using hrole⟩

lemma entityGrants_lookup (e : Entity) (role : String) :
    (a.entityGrants e).lookup role = a.entityRoleGrant e role := by
  unfold entityGrants
  rw [a.compileRoles_lookup e _ [] role (by simp)]
  split
  · rfl
  · rename_i hno
    cases hg : a.entityRoleGrant e role with
    | none => rfl
    | some g => exact absurd (.inr (a.entityRoleGrant_role hg)) hno

lemma mem_roleGrants {e : Entity} {action : Action} {role : String} :
    g ∈ a.roleGrants e action role ↔
      (g ∈ lookupList (lookupList a.policy.roles role) e.name ∨ a.entityRoleGrant e role = some g) ∧
        g.allows action = true := by
  unfold roleGrants
  rw [entityGrants_lookup, mem_append, mem_filter, mem_filter, Option.mem_toList,
    ← or_and_right]

lemma mem_findCandidates {e : Entity} {principal : String} {action : Action} :
    g ∈ a.findCandidates e principal action ↔ a.Holds e principal g ∧ g.allows action = true := by
  have hroles : ∀ r, r ∈ a.rolesOf principal → g ∈ a.roleGrants e action r →
      a.Holds e principal g ∧ g.allows action = true := by
    intro r hr hg
    obtain ⟨hg | hg, hallows⟩ := a.mem_roleGrants.mp hg
    · exact ⟨.role hr hg, hallows⟩
    · exact ⟨.entity hr hg, hallows⟩
  have hholds : ∀ r, (g ∈ lookupList (lookupList a.policy.roles r) e.name ∨ a.entityRoleGrant e r = some g) →
      g.allows action = true → g ∈ a.roleGrants e action r :=
    fun r hg hallows => a.mem_roleGrants.mpr ⟨hg, hallows⟩
  unfold findCandidates
  cases hp : a.policy.principals.lookup principal with
  | none =>
    have hr : a.rolesOf principal = [principal] := by simp [rolesOf, hp]
    constructor
    · exact hroles principal (by simp [hr])
    · rintro ⟨hh, hallows⟩
      cases hh with
      | direct hp' => simp [hp] at hp'
      | role hr' hg =>
        rw [hr, mem_singleton] at hr'
        exact hholds principal (.inl (hr' ▸ hg)) hallows
      | entity hr' hg =>
        rw [hr, mem_singleton] at hr'
        exact hholds principal (.inr (hr' ▸ hg)) hallows
  | some p =>
    have hr : a.rolesOf principal = p.roles := by simp [rolesOf, hp]
    rw [mem_append, mem_filter, mem_flatMap]
    constructor
    · rintro (⟨hg, hallows⟩ | ⟨r, hmem, hg⟩)
      · exact ⟨.direct hp hg, hallows⟩
      · exact hroles r (hr ▸ hmem) hg
    · rintro ⟨hh, hallows⟩
      cases hh with
      | direct hp' hg =>
        rw [hp, Option.some.injEq] at hp'
        exact .inl ⟨hp' ▸ hg, hallows⟩
      | role hr' hg => exact .inr ⟨_, hr ▸ hr', hholds _ (.inl hg) hallows⟩
      | entity hr' hg => exact .inr ⟨_, hr ▸ hr', hholds _ (.inr hg) hallows⟩

variable {a}

lemma candidates_fst (memo : Memo a) (e : Entity) (he : e ∈ a.registry.entities) (principal : String)
    (action : Action) :
    (candidates memo e he principal action).1 =
      if principal = "" then [] else a.findCandidates e principal action := by
  unfold candidates
  by_cases hp : principal = ""
  · simp [hp]
  rw [if_neg hp, if_neg hp]
  split
  · rfl
  cases hm : memo.entries.lookup (principal, e.name, action) with
  | none => rfl
  | some found =>
    have hmem : ((principal, e.name, action), found) ∈ memo.entries := by
      obtain ⟨l₁, l₂, hl, -⟩ := lookup_eq_some_iff.mp hm
      simp [hl]
    exact memo.sound _ hmem e he rfl

end GrantAuthorizer

lemma hasName_empty (a : Attribute) : a.hasName "" = false := by
  simp [Attribute.hasName, a.named]

lemma fieldAllowed_iff {field : String} {allowed : List String} {visible : List Attribute} :
    fieldAllowed field allowed visible = true ↔ Lists visible allowed field := by
  have hlisted : ∀ a : Attribute,
      (allowed.contains a.name || (a.aliasName != "" && allowed.contains a.aliasName)) = true ↔
        ∃ h ∈ allowed, a.hasName h = true := by
    intro a
    simp only [Attribute.hasName, Bool.or_eq_true, Bool.and_eq_true, contains_iff_mem, beq_iff_eq, bne_iff_ne]
    constructor
    · rintro (h | ⟨hne, h⟩)
      · exact ⟨a.name, h, .inl rfl⟩
      · exact ⟨a.aliasName, h, .inr ⟨hne, rfl⟩⟩
    · rintro ⟨h, hmem, rfl | ⟨hne, rfl⟩⟩
      · exact .inl hmem
      · exact .inr ⟨hne, hmem⟩
  unfold fieldAllowed Lists
  rw [Bool.or_eq_true, contains_iff_mem, List.any_eq_true]
  simp only [Bool.and_eq_true, hlisted]

variable {requested : List String}

lemma firstDenied_of_lists {allowed : List String} {visible : List Attribute}
    (h : ∀ f ∈ requested, f ≠ "" → Lists visible allowed f) : firstDenied requested allowed visible = "" := by
  unfold firstDenied
  cases hf : requested.find? (fun f => !fieldAllowed f allowed visible) with
  | none => rfl
  | some f =>
    by_contra hne
    have hl := fieldAllowed_iff.mpr (h f (mem_of_find?_eq_some hf) hne)
    have hdenied := find?_some hf
    simp [hl] at hdenied

lemma lists_of_firstDenied {allowed : List String} {visible : List Attribute}
    (hempty : "" ∉ requested) (h : firstDenied requested allowed visible = "") :
    ∀ f ∈ requested, Lists visible allowed f := by
  unfold firstDenied at h
  cases hf : requested.find? (fun f => !fieldAllowed f allowed visible) with
  | none =>
    intro f hmem
    have := find?_eq_none.mp hf f hmem
    exact fieldAllowed_iff.mp (by simpa using this)
  | some f =>
    rw [hf, Option.getD_some] at h
    exact absurd (h ▸ mem_of_find?_eq_some hf) hempty

lemma coversFields_of_covers {visible : List Attribute} {read write : List String}
    (h : Covers visible g read write) : coversFields visible read write g = true := by
  unfold coversFields
  cases hacl : g.fields with
  | none => rfl
  | some acl =>
    obtain ⟨hr, hw⟩ := h acl hacl
    simp [firstDenied_of_lists (fun f hf _ => hr f hf), firstDenied_of_lists (fun f hf _ => hw f hf)]

lemma covers_of_coversFields {visible : List Attribute} {read write : List String}
    (hr : "" ∉ read) (hw : "" ∉ write) (h : coversFields visible read write g = true) :
    Covers visible g read write := by
  intro acl hacl
  simp only [coversFields, hacl, Bool.and_eq_true, beq_iff_eq] at h
  exact ⟨lists_of_firstDenied hr h.1, lists_of_firstDenied hw h.2⟩

lemma mem_projectFields {visible : List Attribute} {f : String}
    (hreq : requested ≠ []) :
    f ∈ projectFields visible requested ↔ f ∈ requested ∧ ∃ a ∈ visible, a.hasName f = true := by
  have hsmall : ∀ a : Attribute, (a.name == f || (a.aliasName == f && f != "")) = a.hasName f := by
    intro a
    rw [Bool.eq_iff_iff]
    simp only [Attribute.hasName, Bool.or_eq_true, Bool.and_eq_true, beq_iff_eq, bne_iff_ne]
    constructor
    · rintro (h | ⟨h, hne⟩)
      · exact .inl h
      · exact .inr ⟨h ▸ hne, h⟩
    · rintro (h | ⟨hne, h⟩)
      · exact .inl h
      · exact .inr ⟨h, h ▸ hne⟩
  unfold projectFields
  rw [if_neg hreq]
  split
  · simp [hsmall]
  · simp only [mem_filter, contains_iff_mem, mem_flatMap]
    refine and_congr_right fun _ => exists_congr fun a => and_congr_right fun _ => ?_
    by_cases hal : a.aliasName = "" <;> simp [Attribute.hasName, hal, eq_comm (a := f)]

lemma empty_notMem_projectFields (visible : List Attribute) (requested : List String) :
    "" ∉ projectFields visible requested := by
  intro h
  by_cases hreq : requested = []
  · obtain ⟨a, -, ha⟩ := mem_map.mp (by simpa [projectFields, hreq] using h)
    exact a.named ha
  · obtain ⟨-, a, -, ha⟩ := (mem_projectFields hreq).mp h
    simp [hasName_empty] at ha

lemma unionProjection_subset {visible : List Attribute} {grants : List Grant}
    {f : String} (h : f ∈ unionProjection visible requested grants) : f ∈ projectFields visible requested :=
  (mem_filter.mp h).1

lemma unionProjection_eq {visible : List Attribute} {grants : List Grant}
    (hg : g ∈ grants) (hc : Covers visible g (projectFields visible requested) []) :
    unionProjection visible requested grants = projectFields visible requested := by
  have hall : grantProjection visible requested g = projectFields visible requested := by
    unfold grantProjection
    cases hacl : g.fields with
    | none => rfl
    | some acl =>
      simp only [projectFieldsForACL, filter_eq_self]
      intro f hf
      exact fieldAllowed_iff.mpr ((hc acl hacl).1 f hf)
  unfold unionProjection
  simp only [filter_eq_self, contains_iff_mem, mem_flatMap]
  intro f hf
  exact ⟨g, hg, hall ▸ hf⟩

lemma isNil_mapConditions (f : Condition → Condition) (p : Predicate) :
    (mapConditions f p).isNil = p.isNil := by
  cases p <;> rfl

lemma eq_nil_of_isNil {p : Predicate} (h : p.isNil = true) : p = .nil := by
  cases p <;> simp [Predicate.isNil] at h ⊢

@[simp] lemma resolveSubject_nil (s : Subject) : resolveSubject .nil s = .nil := by
  simp [resolveSubject, mapConditions]

variable {db : DB}

lemma truth_resolve_andPredicates {ρ : Env} {s : Subject} {tenant filter : Predicate} :
    truth db ρ (resolveSubject (andPredicates tenant filter) s) = .true ↔
      truth db ρ (resolveSubject tenant s) = .true ∧ truth db ρ (resolveSubject filter s) = .true := by
  unfold andPredicates
  split
  · rename_i hnil
    rw [eq_nil_of_isNil hnil]
    simp
  · simp [resolveSubject, mapConditions]

lemma truth_resolve_orPredicates {ρ : Env} {s : Subject} {preds : List Predicate} :
    truth db ρ (resolveSubject (orPredicates preds) s) = .true ↔
      ∃ p ∈ preds, truth db ρ (resolveSubject p s) = .true := by
  unfold orPredicates
  split
  · simp
  · simp [resolveSubject, mapConditions]

variable {covering : List Grant}

/-- A row passes the filter of some grants exactly when it passes the tenant policy and
the rows of one of them. -/
lemma truth_effectiveRowFilter {ρ : Env} {s : Subject} {tenant : Predicate} :
    truth db ρ (resolveSubject (effectiveRowFilter covering tenant).1 s) = .true ↔
      truth db ρ (resolveSubject tenant s) = .true ∧
        ∃ g ∈ covering, truth db ρ (resolveSubject g.rows s) = .true := by
  have hrows : truth db ρ (resolveSubject
      (if covering.any (fun g => g.rows.isNil) then .nil
        else orPredicates ((covering.map (·.rows)).filter fun p => !p.isNil)) s) = .true ↔
      ∃ g ∈ covering, truth db ρ (resolveSubject g.rows s) = .true := by
    split
    · rename_i hany
      obtain ⟨g, hg, hnil⟩ := List.any_eq_true.mp hany
      simp only [resolveSubject_nil, truth_nil, true_iff]
      exact ⟨g, hg, by simp [eq_nil_of_isNil hnil]⟩
    · rename_i hall
      rw [truth_resolve_orPredicates]
      constructor
      · rintro ⟨p, hp, htrue⟩
        obtain ⟨hp, -⟩ := mem_filter.mp hp
        obtain ⟨g, hg, rfl⟩ := mem_map.mp hp
        exact ⟨g, hg, htrue⟩
      · rintro ⟨g, hg, htrue⟩
        have hnil : g.rows.isNil = false := by
          simp only [List.any_eq_true, not_exists, not_and, Bool.not_eq_true] at hall
          exact hall g hg
        refine ⟨g.rows, mem_filter.mpr ⟨mem_map.mpr ⟨g, hg, rfl⟩, by simp [hnil]⟩, htrue⟩
  unfold effectiveRowFilter
  by_cases ht : tenant.isNil
  · rw [eq_nil_of_isNil ht]
    simpa [Predicate.isNil] using hrows
  · simp only [ht, Bool.false_eq_true, if_false]
    rw [truth_resolve_andPredicates, hrows]

/-- What the authorizer promises of its decision on a request. -/
structure CoveringRule (a : GrantAuthorizer) (memo : GrantAuthorizer.Memo a) (req : Request) (res : Resolved) :
    Prop where
  /-- A row that passes the filter passes the tenant policy and the rows of one candidate
  grant, which covers the fields used and, for a read, those returned. -/
  sound : (authorize a memo req).1.allowed = true →
    ∀ (db : DB) (row : Env), truth db row (authorize a memo req).1.rowFilter = .true →
      truth db row (resolveSubject res.entity.tenantPolicy req.subject) = .true ∧
      ∃ g, a.Candidate res.entity (a.normalize req.role) req.action g ∧
        Covers res.attributes g (usedFields req).1 (usedFields req).2 ∧
        (req.action = .read → Covers res.attributes g (authorize a memo req).1.fields []) ∧
        truth db row (resolveSubject g.rows req.subject) = .true
  /-- A candidate grant that covers all the fields a request names serves it. -/
  complete : ∀ g, a.Candidate res.entity (a.normalize req.role) req.action g →
    Covers res.attributes g (usedFields req).1 (usedFields req).2 →
    (req.action = .read → req.fields ≠ [] ∧ projectFields res.attributes req.fields ≠ [] ∧
      Covers res.attributes g (projectFields res.attributes req.fields) []) →
    (authorize a memo req).1.allowed = true ∧
      ∀ (db : DB) (row : Env), truth db row (resolveSubject res.entity.tenantPolicy req.subject) = .true →
        truth db row (resolveSubject g.rows req.subject) = .true →
        truth db row (authorize a memo req).1.rowFilter = .true

variable {req : Request} {res : Resolved}

lemma authorize_fst {a : GrantAuthorizer} (memo : GrantAuthorizer.Memo a)
    (h : a.registry.resolve req.entity = some res) :
    (authorize a memo req).1 = decision { req with role := a.normalize req.role } res
      (if a.normalize req.role = "" then [] else a.findCandidates res.entity (a.normalize req.role) req.action) := by
  unfold authorize
  simp only
  split
  · rename_i hnone
    rw [h] at hnone
    cases hnone
  · rename_i res' hres
    obtain rfl : res = res' := Option.some.inj (h.symm.trans hres)
    rw [GrantAuthorizer.candidates_fst]

/-- The grants serving a projection are covering grants; for a read they cover what it returns. -/
lemma project_ok {serving : List Grant} {projected : List String}
    (h : project req res covering = .ok (projected, serving)) :
    (∀ g ∈ serving, g ∈ covering) ∧
      (req.action = .read → (∀ g ∈ serving, coversFields res.attributes projected [] g = true) ∧
        ∀ f ∈ projected, f ∈ projectFields res.attributes req.fields) := by
  unfold project at h
  by_cases hr : returnsRows req.action
  · simp only [hr, Bool.not_true, Bool.false_eq_true, if_false] at h
    by_cases hread : req.action = .read
    · rw [if_neg (not_not.mpr hread)] at h
      split at h
      · cases h
      split at h
      · cases h
      cases h
      refine ⟨fun g hg => (mem_filter.mp hg).1, fun _ => ⟨fun g hg => (mem_filter.mp hg).2, ?_⟩⟩
      exact fun f hf => unionProjection_subset hf
    · rw [if_pos hread] at h
      cases h
      exact ⟨fun g hg => hg, fun h => absurd h hread⟩
  · rw [if_pos (by simpa using hr)] at h
    cases h
    exact ⟨fun g hg => hg, fun hread => by simp [hread, returnsRows] at hr⟩

lemma project_error {d : Decision}
    (h : project req res covering = .error d) : d.allowed = false := by
  simp only [project] at h
  split at h
  · cases h
  split at h
  · cases h
  split at h
  · cases h
    rfl
  split at h
  · cases h
    rfl
  · cases h

lemma project_of_covers (hg : g ∈ covering)
    (hread : req.action = .read → projectFields res.attributes req.fields ≠ [] ∧
      Covers res.attributes g (projectFields res.attributes req.fields) []) :
    ∃ projected serving, g ∈ serving ∧ project req res covering = .ok (projected, serving) := by
  by_cases hact : req.action = .read
  · obtain ⟨hne, hcp⟩ := hread hact
    have hserving : g ∈ coveringGrants covering (projectFields res.attributes req.fields) [] res.attributes :=
      mem_filter.mpr ⟨hg, coversFields_of_covers hcp⟩
    refine ⟨projectFields res.attributes req.fields, _, hserving, ?_⟩
    simp [project, hact, returnsRows, unionProjection_eq hg hcp, hne, ne_nil_of_mem hserving]
  · by_cases hr : returnsRows req.action
    · exact ⟨unionProjection res.attributes req.fields covering, covering, hg, by simp [project, hr, hact]⟩
    · exact ⟨[], covering, hg, by simp [project, hr]⟩

lemma decision_allowed {candidates : List Grant}
    (h : (decision req res candidates).allowed = true) :
    ∃ projected serving,
      project req res (coveringGrants candidates (usedFields req).1 (usedFields req).2 res.attributes) =
        .ok (projected, serving) ∧
      (decision req res candidates).fields = projected ∧
      (decision req res candidates).rowFilter =
        resolveSubject (effectiveRowFilter serving res.entity.tenantPolicy).1 req.subject := by
  unfold decision at h ⊢
  by_cases hc : candidates = []
  · simp [hc, denied] at h
  simp only [hc, if_false] at h ⊢
  split at h
  · simp [denied] at h
  rename_i hreadable
  rw [if_neg hreadable]
  split at h
  · unfold deniedFieldScope at h
    split at h
    · simp [denied] at h
    · split at h <;> simp [denied, ambiguousFieldScope] at h
  rename_i hcov
  rw [if_neg hcov]
  cases hp : project req res (coveringGrants candidates (usedFields req).1 (usedFields req).2 res.attributes) with
  | error d =>
    rw [hp] at h
    simp [project_error hp] at h
  | ok p => exact ⟨p.1, p.2, rfl, rfl, rfl⟩

/-- A candidate that passes the check of the fields used and covers the projection is
among the grants that serve the request. -/
lemma decision_of_covers {req : Request} {res : Resolved} {candidates : List Grant} {g : Grant}
    (hg : g ∈ candidates) (hc : coversFields res.attributes (usedFields req).1 (usedFields req).2 g = true)
    (hread : req.action = .read → (req.fields ≠ [] ∨ allRestricted candidates = false) ∧
      projectFields res.attributes req.fields ≠ [] ∧
      Covers res.attributes g (projectFields res.attributes req.fields) []) :
    ∃ serving, g ∈ serving ∧ (decision req res candidates).allowed = true ∧
      (decision req res candidates).rowFilter =
        resolveSubject (effectiveRowFilter serving res.entity.tenantPolicy).1 req.subject := by
  have hcov : g ∈ coveringGrants candidates (usedFields req).1 (usedFields req).2 res.attributes :=
    mem_filter.mpr ⟨hg, hc⟩
  obtain ⟨projected, serving, hmem, hok⟩ := project_of_covers hcov fun h => (hread h).2
  refine ⟨serving, hmem, ?_⟩
  have hfields : ¬ (req.action = .read ∧ req.fields = [] ∧ allRestricted candidates ∧
      unionProjection res.attributes [] candidates = []) := by
    rintro ⟨hact, hempty, hall, -⟩
    rcases (hread hact).1 with h | h
    · exact h hempty
    · simp [h] at hall
  unfold decision
  simp [ne_nil_of_mem hg, ne_nil_of_mem hcov, hfields, hok]

lemma authorize_complete {a : GrantAuthorizer} (memo : GrantAuthorizer.Memo a)
    (hres : a.registry.resolve req.entity = some res)
    (hg : a.Candidate res.entity (a.normalize req.role) req.action g)
    (hc : Covers res.attributes g (usedFields req).1 (usedFields req).2)
    (hread : req.action = .read → req.fields ≠ [] ∧ projectFields res.attributes req.fields ≠ [] ∧
      Covers res.attributes g (projectFields res.attributes req.fields) []) :
    (authorize a memo req).1.allowed = true ∧
      ∀ (db : DB) (row : Env), truth db row (resolveSubject res.entity.tenantPolicy req.subject) = .true →
        truth db row (resolveSubject g.rows req.subject) = .true →
        truth db row (authorize a memo req).1.rowFilter = .true := by
  obtain ⟨hrole, hholds, hallows⟩ := hg
  have hmem := a.mem_findCandidates.mpr ⟨hholds, hallows⟩
  obtain ⟨serving, hserving, hallowed, hfilter⟩ :=
    @decision_of_covers { req with role := a.normalize req.role } res _ g hmem (coversFields_of_covers hc)
      fun hact => ⟨.inl (hread hact).1, (hread hact).2⟩
  rw [authorize_fst memo hres, if_neg hrole]
  refine ⟨hallowed, fun db row htenant hrows => ?_⟩
  rw [hfilter]
  exact truth_effectiveRowFilter.mpr ⟨htenant, g, hserving, hrows⟩

lemma authorize_admits {a : GrantAuthorizer} (memo : GrantAuthorizer.Memo a)
    (hres : a.registry.resolve req.entity = some res) (hallowed : (authorize a memo req).1.allowed = true)
    {row : Env} (hrow : truth db row (authorize a memo req).1.rowFilter = .true) :
    truth db row (resolveSubject res.entity.tenantPolicy req.subject) = .true ∧
    ∃ g, a.Candidate res.entity (a.normalize req.role) req.action g ∧
      coversFields res.attributes (usedFields req).1 (usedFields req).2 g = true ∧
      (req.action = .read → coversFields res.attributes (authorize a memo req).1.fields [] g = true ∧
        ∀ f ∈ (authorize a memo req).1.fields, f ∈ projectFields res.attributes req.fields) ∧
      truth db row (resolveSubject g.rows req.subject) = .true := by
  rw [authorize_fst memo hres] at hallowed hrow ⊢
  obtain ⟨projected, serving, hproject, hfields, hfilter⟩ := decision_allowed hallowed
  rw [hfilter] at hrow
  obtain ⟨htenant, g, hg, hrows⟩ := truth_effectiveRowFilter.mp hrow
  obtain ⟨hsub, hread⟩ := project_ok hproject
  obtain ⟨hmem, hcov⟩ := mem_filter.mp (hsub g hg)
  refine ⟨htenant, g, ?_, hcov, fun hact => ?_, hrows⟩
  · by_cases hrole : a.normalize req.role = ""
    · rw [if_pos hrole] at hmem
      cases hmem
    · rw [if_neg hrole] at hmem
      exact ⟨hrole, a.mem_findCandidates.mp hmem⟩
  · rw [hfields]
    exact ⟨(hread hact).1 g hg, (hread hact).2⟩

section EmptyName
variable (req : Request) (res : Resolved)

def everyField : Grant := { id := "every-field", actions := [req.action], rows := .or [] }

/-- A grant on every row and on the fields a request uses, but for the empty name. -/
def everyRow : Grant :=
  { id := "every-row", actions := [req.action],
    fields := some { read := (usedFields req).1.filter (· ≠ "") ++ projectFields res.attributes req.fields,
                     write := (usedFields req).2.filter (· ≠ "") } }

def twoGrants (lower : Char → Char) : Policy :=
  { principals := [(normalizeRole lower req.role,
      { grants := [(res.entity.name, [everyField req, everyRow req res])] })] }

lemma findCandidates_twoGrants (reg : Registry) (lower : Char → Char) :
    GrantAuthorizer.findCandidates ⟨reg, twoGrants req res lower, lower⟩ res.entity (normalizeRole lower req.role)
      req.action = [everyField req, everyRow req res] := by
  simp [GrantAuthorizer.findCandidates, twoGrants, lookupList, Grant.allows, everyField, everyRow]

lemma coversFields_everyRow :
    coversFields res.attributes (usedFields req).1 (usedFields req).2 (everyRow req res) = true := by
  simp only [coversFields, everyRow, Bool.and_eq_true, beq_iff_eq]
  refine ⟨firstDenied_of_lists fun f hf hne => .inl ?_, firstDenied_of_lists fun f hf hne => .inl ?_⟩
  · simp [hf, hne]
  · simp [hf, hne]

lemma covers_everyRow_projection :
    Covers res.attributes (everyRow req res) (projectFields res.attributes req.fields) [] := by
  intro acl hacl
  simp only [everyRow, Option.some.injEq] at hacl
  subst hacl
  exact ⟨fun f hf => .inl (by simp [hf]), by simp⟩

lemma decision_twoGrants (hproj : ¬ (req.action = .read ∧ projectFields res.attributes req.fields = []))
    {row : Env} (htenant : truth db row (resolveSubject res.entity.tenantPolicy req.subject) = .true) :
    (decision req res [everyField req, everyRow req res]).allowed = true ∧
      truth db row (decision req res [everyField req, everyRow req res]).rowFilter = .true := by
  obtain ⟨serving, hmem, hallowed, hfilter⟩ := @decision_of_covers req res [everyField req, everyRow req res]
    (everyRow req res) (by simp) (coversFields_everyRow req res) fun hact =>
      ⟨.inr (by simp [allRestricted, everyField]), fun h => hproj ⟨hact, h⟩, covers_everyRow_projection req res⟩
  refine ⟨hallowed, ?_⟩
  rw [hfilter]
  exact truth_effectiveRowFilter.mpr ⟨htenant, everyRow req res, hmem, by simp [everyRow]⟩

lemma not_covers_twoGrants {reg : Registry} {lower : Char → Char}
    (hempty : "" ∈ (usedFields req).1 ∨ "" ∈ (usedFields req).2)
    (hg : GrantAuthorizer.Candidate ⟨reg, twoGrants req res lower, lower⟩ res.entity
      (normalizeRole lower req.role) req.action g)
    (hc : Covers res.attributes g (usedFields req).1 (usedFields req).2) {row : Env} :
    truth db row (resolveSubject g.rows req.subject) ≠ .true := by
  have hmem := (GrantAuthorizer.mem_findCandidates _).mpr hg.2
  rw [findCandidates_twoGrants] at hmem
  rcases mem_cons.mp hmem with rfl | hmem
  · simp [everyField, resolveSubject, mapConditions]
  · rw [mem_singleton] at hmem
    subst hmem
    obtain ⟨hr, hw⟩ := hc _ rfl
    have hnot : ∀ listed : List String, "" ∉ listed → ¬ Lists res.attributes listed "" := by
      rintro listed hno (h | ⟨a, -, ha, -⟩)
      · exact hno h
      · simp [hasName_empty] at ha
    rcases hempty with h | h
    · refine absurd (hr "" h) (hnot _ ?_)
      simp [empty_notMem_projectFields]
    · exact absurd (hw "" h) (hnot _ (by simp))

end EmptyName

def customers : Entity := { name := "customers", attributes := [{ name := "name" }, { name := "ssn" }] }

def customersRegistry : Registry := ⟨[customers], by simp [customers], by simp⟩

def clerkPolicy : Policy :=
  { principals := [("clerk", { grants := [("customers",
      [{ id := "names", actions := [.read], fields := some ⟨["name"], []⟩ }])] })] }

def clerkRead (readFields : List String) : Request :=
  { role := "Clerk", entity := "customers", action := .read, fields := ["name"], readFields }

end SqlMcpServer.Rbac
