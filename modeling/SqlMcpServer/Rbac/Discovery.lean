import SqlMcpServer.Rbac.Covering

namespace SqlMcpServer.Rbac

open List

def Decision.scopes (d : Decision) : List (List String) := d.fieldScopes.filter (· ≠ [])

def Decision.reachable (d : Decision) : Bool := d.allowed || d.scopes ≠ []

/-- `entity.ActionsFor`: the actions of a kind. -/
def actionsFor : Kind → List Action
  | .procedure => [.execute]
  | _ => [.read, .aggregate, .create, .update, .delete]

namespace GrantAuthorizer
variable (a : GrantAuthorizer)

def candidatesOf (res : Resolved) (role : String) (action : Action) : List Grant :=
  if role = "" then [] else a.findCandidates res.entity role action

def reaches (role name : String) (res : Resolved) (action : Action) : Bool :=
  (decision { role, entity := name, action } res (a.candidatesOf res role action)).reachable

/-- What `Usable` answers for a normalized role. -/
def usableBy (role name : String) : Bool :=
  match a.registry.resolve name with
  | none => false
  | some res => (actionsFor res.entity.kind).any (a.reaches role name res)

/-- The answers kept, by normalized role and entity name. -/
structure UsableMemo where
  entries : List ((String × String) × Bool) := []
  sound : ∀ entry ∈ entries, entry.2 = a.usableBy entry.1.1 entry.1.2 := by simp

variable {a}

def anyReachable (memo : Memo a) (role name : String) : List Action → Bool × Memo a
  | [] => (false, memo)
  | action :: actions =>
    let (d, memo) := authorize a memo { role, entity := name, action }
    if d.reachable then (true, memo) else anyReachable memo role name actions

lemma anyReachable_fst (memo : Memo a) {role name : String} {res : Resolved} (hres : a.registry.resolve name = some res)
    (actions : List Action) :
    (anyReachable memo role name actions).1 = actions.any (a.reaches (a.normalize role) name res) := by
  induction actions generalizing memo with
  | nil => rfl
  | cons action actions ih =>
    have hd : (authorize a memo { role, entity := name, action }).1.reachable =
        a.reaches (a.normalize role) name res action := by
      rw [authorize_fst memo hres]
      rfl
    rw [anyReachable, List.any_cons, ← hd]
    dsimp only
    split_ifs with h
    · rw [h, Bool.true_or]
    · rw [ih, Bool.not_eq_true] at *
      rw [h, Bool.false_or]

def usable (memo : Memo a) (kept : UsableMemo a) (role name : String) : Bool × Memo a × UsableMemo a :=
  match kept.entries.lookup (a.normalize role, name) with
  | some ok => (ok, memo, kept)
  | none =>
    match h : a.registry.resolve name with
    | none => (false, memo, kept)
    | some res =>
      let found := anyReachable memo role name (actionsFor res.entity.kind)
      if a.known (a.normalize role) then
        (found.1, found.2, ⟨((a.normalize role, name), found.1) :: kept.entries, by
          intro entry hentry
          rcases mem_cons.mp hentry with rfl | hentry
          · dsimp only
            rw [usableBy, h]
            exact anyReachable_fst memo h _
          · exact kept.sound entry hentry⟩)
      else (found.1, found.2, kept)

lemma usable_fst (memo : Memo a) (kept : UsableMemo a) (role name : String) :
    (usable memo kept role name).1 = a.usableBy (a.normalize role) name := by
  unfold usable
  split
  · rename_i ok hlookup
    have hmem : ((a.normalize role, name), ok) ∈ kept.entries := by
      obtain ⟨l₁, l₂, hl, -⟩ := lookup_eq_some_iff.mp hlookup
      simp [hl]
    exact kept.sound _ hmem
  · split
    · rename_i hnone
      rw [usableBy, hnone]
    · rename_i res hres
      have hby : a.usableBy (a.normalize role) name =
          (anyReachable memo role name (actionsFor res.entity.kind)).1 := by
        rw [usableBy, hres]
        exact (anyReachable_fst memo hres _).symm
      rw [hby]
      dsimp only
      split_ifs <;> rfl

end GrantAuthorizer

lemma mem_grantProjection {visible : List Attribute} {requested : List String} {g : Grant} {f : String} :
    f ∈ grantProjection visible requested g ↔
      f ∈ projectFields visible requested ∧ ∀ acl, g.fields = some acl → Lists visible acl.read f := by
  unfold grantProjection
  cases hacl : g.fields with
  | none => simp
  | some acl => simp [projectFieldsForACL, mem_filter, fieldAllowed_iff]

lemma mem_unionProjection {visible : List Attribute} {requested : List String} {grants : List Grant} {f : String} :
    f ∈ unionProjection visible requested grants ↔ ∃ g ∈ grants, f ∈ grantProjection visible requested g := by
  simp only [unionProjection, mem_filter, contains_iff_mem, mem_flatMap, mem_grantProjection]
  constructor
  · rintro ⟨-, h⟩
    exact h
  · rintro ⟨g, hg, hf⟩
    exact ⟨hf.1, g, hg, hf⟩

lemma mem_grantProjection_nil {visible : List Attribute} {g : Grant} {attr : Attribute} (hattr : attr ∈ visible)
    (h : ∀ acl, g.fields = some acl → ∃ f ∈ acl.read, attr.hasName f = true) :
    attr.name ∈ grantProjection visible [] g := by
  refine mem_grantProjection.mpr ⟨by simpa [projectFields] using ⟨attr, hattr, rfl⟩, fun acl hacl => ?_⟩
  exact .inr ⟨attr, hattr, attr.hasName_name, h acl hacl⟩

lemma unionProjection_nil_ne_nil {visible : List Attribute} {requested : List String} {grants candidates : List Grant}
    (hsub : ∀ g ∈ grants, g ∈ candidates) (h : unionProjection visible requested grants ≠ []) :
    unionProjection visible [] candidates ≠ [] := by
  obtain ⟨f, hf⟩ := exists_mem_of_ne_nil _ h
  obtain ⟨g, hg, hf⟩ := mem_unionProjection.mp hf
  by_cases hreq : requested = []
  · subst hreq
    exact ne_nil_of_mem (mem_unionProjection.mpr ⟨g, hsub g hg, hf⟩)
  obtain ⟨hproj, hlists⟩ := mem_grantProjection.mp hf
  obtain ⟨-, attr, hattr, hname⟩ := (mem_projectFields hreq).mp hproj
  have hreadable : ∃ b ∈ visible, ∀ acl, g.fields = some acl → ∃ f ∈ acl.read, b.hasName f = true := by
    cases hacl : g.fields with
    | none => exact ⟨attr, hattr, fun _ h => by cases h⟩
    | some acl =>
      rcases hlists acl hacl with hlisted | ⟨b, hb, -, listed⟩
      · exact ⟨attr, hattr, fun acl' h => Option.some.inj h ▸ ⟨f, hlisted, hname⟩⟩
      · exact ⟨b, hb, fun acl' h => Option.some.inj h ▸ listed⟩
  obtain ⟨b, hb, hread⟩ := hreadable
  exact ne_nil_of_mem (mem_unionProjection.mpr ⟨g, hsub g hg, mem_grantProjection_nil hb hread⟩)

lemma coveringGrants_nil (grants : List Grant) (visible : List Attribute) : coveringGrants grants [] [] visible = grants := by
  rw [coveringGrants, filter_eq_self]
  intro g _
  unfold coversFields
  split <;> rfl

section
variable {res : Resolved} {candidates : List Grant} {role name : String} {action : Action}

/-- The request discovery makes is reachable when there are candidates and, for a read, a
field to return. -/
lemma reachable_of_candidates (hc : candidates ≠ [])
    (hread : action = .read → unionProjection res.attributes [] candidates ≠ []) :
    (decision { role, entity := name, action } res candidates).reachable = true := by
  by_cases hact : action = .read
  · have hunion := hread hact
    subst hact
    unfold decision
    simp only [usedFields, coveringGrants_nil, hc, hunion, if_false, and_false, and_self, if_true]
    unfold project
    simp only [returnsRows, hunion, if_false, Bool.not_true, Bool.false_eq_true, ne_eq, not_true_eq_false]
    split_ifs with hserving
    · obtain ⟨f, hf⟩ := exists_mem_of_ne_nil _ hunion
      obtain ⟨g, hg, hf⟩ := mem_unionProjection.mp hf
      have hscope : grantProjection res.attributes [] g ∈
          (ambiguousFieldScope { role, entity := name, action := .read } candidates res.attributes).scopes :=
        mem_filter.mpr ⟨mem_map_of_mem hg, by simpa using ne_nil_of_mem hf⟩
      simp [Decision.reachable, ne_nil_of_mem hscope]
    · rfl
  · obtain ⟨g, hg⟩ := exists_mem_of_ne_nil _ hc
    obtain ⟨-, -, hallowed, -⟩ := @decision_of_covers { role, entity := name, action } res candidates g hg
      (by unfold usedFields coversFields; cases action <;> split <;> rfl) fun h => absurd h hact
    rw [Decision.reachable, hallowed, Bool.true_or]

lemma reachable_of_allowed {req : Request} (h : (decision req res candidates).allowed = true) (haction : req.action = action) :
    (decision { role, entity := name, action } res candidates).reachable = true := by
  obtain ⟨projected, serving, hproject, -⟩ := decision_allowed h
  apply reachable_of_candidates
  · rintro rfl
    simp [decision, denied] at h
  · rintro rfl
    have hne : unionProjection res.attributes req.fields
        (coveringGrants candidates (usedFields req).1 (usedFields req).2 res.attributes) ≠ [] := by
      intro hnil
      simp [project, haction, returnsRows, hnil] at hproject
    exact unionProjection_nil_ne_nil (fun g hg => (mem_filter.mp hg).1) hne

lemma mem_fieldScopes {req : Request} {scope : List String} (h : scope ∈ (decision req res candidates).fieldScopes) :
    ∃ g ∈ candidates, scope = grantProjection res.attributes [] g := by
  have hambiguous : ∀ grants, (∀ g ∈ grants, g ∈ candidates) →
      scope ∈ (ambiguousFieldScope req grants res.attributes).fieldScopes →
      ∃ g ∈ candidates, scope = grantProjection res.attributes [] g := by
    intro grants hsub h
    obtain ⟨g, hg, rfl⟩ := mem_map.mp h
    exact ⟨g, hsub g hg, rfl⟩
  unfold decision at h
  split at h
  · cases h
  dsimp only at h
  split at h
  · cases h
  split at h
  · unfold deniedFieldScope at h
    split at h
    · cases h
    split at h
    · cases h
    · exact hambiguous candidates (fun _ hg => hg) h
  split at h
  · rename_i d hd
    simp only [project] at hd
    split at hd
    · cases hd
    split at hd
    · cases hd
    split at hd
    · cases hd
      cases h
    split at hd
    · cases hd
      exact hambiguous _ (fun g hg => (mem_filter.mp hg).1) h
    · cases hd
  · cases h

lemma allowed_subject (req : Request) (subject : Subject) :
    (decision { req with subject } res candidates).allowed = (decision req res candidates).allowed := by
  have hproject : ∀ covering, project { req with subject } res covering = project req res covering := fun _ => rfl
  have hused : usedFields { req with subject } = usedFields req := rfl
  unfold decision
  dsimp only
  rw [hused, hproject]
  split_ifs
  · rfl
  · rfl
  · rfl
  · cases project req res (coveringGrants candidates (usedFields req).1 (usedFields req).2 res.attributes) <;> rfl

lemma visible_of_scope {g : Grant} {f : String} (hf : f ∈ grantProjection res.attributes [] g) :
    ∃ attr ∈ res.attributes, attr.hasName f = true := by
  obtain ⟨attr, hattr, rfl⟩ := mem_map.mp (by simpa [projectFields] using (mem_grantProjection.mp hf).1)
  exact ⟨attr, hattr, attr.hasName_name⟩

lemma allowed_of_scope {req : Request} {g : Grant} (hg : g ∈ candidates)
    (hwrite : req.writeFields = []) (hfields : req.fields ≠ []) (hread : req.readFields = req.fields)
    (hscope : ∀ f ∈ req.fields, f ∈ grantProjection res.attributes [] g) :
    (decision req res candidates).allowed = true := by
  have hused : usedFields req = (req.fields, []) := by simp [usedFields, hread, hwrite, hfields]
  have hvisible : ∀ f ∈ req.fields, f ∈ projectFields res.attributes req.fields := by
    intro f hf
    exact (mem_projectFields hfields).mpr ⟨hf, visible_of_scope (hscope f hf)⟩
  have hlists : ∀ acl, g.fields = some acl → ∀ f ∈ req.fields, Lists res.attributes acl.read f :=
    fun acl hacl f hf => (mem_grantProjection.mp (hscope f hf)).2 acl hacl
  obtain ⟨f, hf⟩ := exists_mem_of_ne_nil _ hfields
  obtain ⟨-, -, hallowed, -⟩ := @decision_of_covers req res candidates g hg
    (by
      rw [hused]
      exact coversFields_of_covers fun acl hacl => ⟨hlists acl hacl, by simp⟩)
    fun _ => ⟨.inl hfields, ne_nil_of_mem (hvisible f hf), fun acl hacl =>
      ⟨fun f hf => hlists acl hacl f ((mem_projectFields hfields).mp hf).1, by simp⟩⟩
  exact hallowed

end

open GrantAuthorizer in
/-- Discovery finds an entity usable exactly when some selection of visible fields is allowed
for some action; and after a read without explicit fields is denied, every selection within a
scope it reports is allowed. -/
theorem discovery_agrees {a : GrantAuthorizer} (memo : Memo a) (kept : UsableMemo a) {role name : String} {res : Resolved}
    (hres : a.registry.resolve name = some res) (subject : Subject) :
    ((usable memo kept role name).1 = true ↔ ∃ action ∈ actionsFor res.entity.kind, ∃ fields : List String,
      (∀ f ∈ fields, ∃ attr ∈ res.attributes, attr.hasName f = true) ∧
        (authorize a memo { role, entity := name, action, fields, readFields := fields, subject }).1.allowed = true) ∧
    ∀ readFields writeFields, ∀ scope ∈ (authorize a memo
        { role, entity := name, action := .read, readFields, writeFields, subject }).1.scopes,
      ∀ fields, fields ≠ [] → (∀ f ∈ fields, f ∈ scope) →
        (authorize a memo { role, entity := name, action := .read, fields, readFields := fields, subject }).1.allowed = true := by
  constructor
  · rw [usable_fst, usableBy, hres]
    dsimp only
    rw [List.any_eq_true]
    constructor
    · rintro ⟨action, haction, hreach⟩
      refine ⟨action, haction, ?_⟩
      rw [reaches, Decision.reachable, Bool.or_eq_true, decide_eq_true_eq] at hreach
      by_cases hallowed : (decision { role := a.normalize role, entity := name, action } res
          (a.candidatesOf res (a.normalize role) action)).allowed = true
      · refine ⟨[], by simp, ?_⟩
        rw [authorize_fst memo hres, ← hallowed]
        exact allowed_subject { role := a.normalize role, entity := name, action } subject
      · obtain ⟨scope, hscope⟩ := exists_mem_of_ne_nil _ (hreach.resolve_left hallowed)
        obtain ⟨hmem, hne⟩ := mem_filter.mp hscope
        obtain ⟨g, hg, rfl⟩ := mem_fieldScopes hmem
        refine ⟨grantProjection res.attributes [] g, fun f hf => visible_of_scope hf, ?_⟩
        rw [authorize_fst memo hres]
        exact allowed_of_scope hg rfl (by simpa using hne) rfl fun f hf => hf
    · rintro ⟨action, haction, fields, -, hallowed⟩
      rw [authorize_fst memo hres] at hallowed
      exact ⟨action, haction, reachable_of_allowed hallowed rfl⟩
  · intro readFields writeFields scope hscope fields hne hsub
    rw [authorize_fst memo hres] at hscope ⊢
    obtain ⟨g, hg, rfl⟩ := mem_fieldScopes (mem_filter.mp hscope).1
    exact allowed_of_scope hg rfl hne rfl hsub

def splitPolicy : Policy :=
  { principals := [("clerk", { grants := [("customers",
      [{ id := "names", actions := [.read], fields := some ⟨["name"], []⟩ },
       { id := "numbers", actions := [.read], fields := some ⟨["ssn"], []⟩ }])] })] }

open GrantAuthorizer in
theorem discovery_agrees_split :
    (authorize ⟨customersRegistry, splitPolicy, id⟩ {} { role := "clerk", entity := "customers", action := .read }).1.scopes =
      [["name"], ["ssn"]] ∧
    (authorize ⟨customersRegistry, splitPolicy, id⟩ {}
      { role := "clerk", entity := "customers", action := .read, fields := ["ssn"], readFields := ["ssn"] }).1.allowed = true :=
  ⟨by decide, (discovery_agrees (a := ⟨customersRegistry, splitPolicy, id⟩) {} {} rfl fun _ => .null).2 [] [] ["ssn"]
    (by decide) ["ssn"] (by decide) (by decide)⟩

end SqlMcpServer.Rbac
