import SqlMcpServer.Rbac.Covering
import SqlMcpServer.Relalg.Agree
import SqlMcpServer.Tool.Plan

namespace SqlMcpServer.Tool

open List
open Except (bind_eq_ok pure_eq_ok)
open Relalg Interp

/-- What validation of the configuration promises of the entities registered. -/
structure Configured (r : Registry) : Prop where
  /-- A name or an alias is one attribute's. -/
  names : ∀ e ∈ r.entities, ∀ a ∈ e.attributes, ∀ b ∈ e.attributes, ∀ f, a.hasName f → b.hasName f → a = b
  dotless : ∀ e ∈ r.entities, ∀ rel ∈ e.relations, '.' ∉ rel.name.toList
  /-- No field reads as a field of a relationship. -/
  paths : ∀ e ∈ r.entities, ∀ rel ∈ e.relations, ∀ a ∈ e.attributes, ∀ rest,
    a.hasName (joinName rel.name rest) = false
  /-- A relationship joins on columns of either side. -/
  joins : ∀ e ∈ r.entities, ∀ rel ∈ e.relations, ∀ p ∈ rel.joinOn, (∃ a ∈ e.attributes, a.name = p.1) ∧
    ∀ t, r.resolve rel.target = some t → ∃ a ∈ t.entity.attributes, a.name = p.2

def Exposed (e : Entity) (column : String) : Prop := ∃ a ∈ e.visible, a.name = column ∧ a.mask = ""

def Usable (e : Entity) (field : String) : Prop := ∃ a ∈ e.visible, a.hasName field ∧ a.mask = ""

/-- A column of the IR of an entity: its own exposed one, or one a relationship's target
exposes. -/
def Names (tc : Context) (e : Entity) (column : String) : Prop :=
  Exposed e column ∨ ∃ r d t, pathOf e column = some (r, d) ∧ tc.registry.resolve r.target = some t ∧
    Exposed t.entity d

variable {e : Entity}

lemma mem_attributes_of_visible {a : Attribute} (h : a ∈ e.visible) : a ∈ e.attributes :=
  (mem_filter.mp h).1

variable {f : String} {r : Relationship}

lemma pathOf_eq_some {rest : String} (h : pathOf e f = some (r, rest)) :
    relationshipByName e r.name = some r ∧ f = joinName r.name rest := by
  unfold pathOf at h
  split at h
  · cases h
  · rename_i name tail hcut
    obtain ⟨r', hr', heq⟩ := Option.map_eq_some_iff.mp h
    obtain ⟨rfl, rfl⟩ := Prod.mk.inj heq
    have hname := relationshipByName_name hr'
    exact ⟨by rw [hname, hr'], by rw [hname]; exact joinName_of_cutDot hcut⟩

variable {name : String}

lemma relationshipByName_mem
    (h : relationshipByName e name = some r) : r ∈ e.relations := mem_of_find?_eq_some h

variable {c : String}

lemma Exposed.usable (h : Exposed e c) : Usable e c := by
  obtain ⟨a, ha, rfl, hmask⟩ := h
  exact ⟨a, ha, a.hasName_name, hmask⟩

section Configured
variable {tc : Context} (hc : Configured tc.registry) {e : Entity} (he : e ∈ tc.registry.entities)
include hc he

lemma pathOf_joinName (hr : relationshipByName e name = some r) (d : String) :
    pathOf e (joinName name d) = some (r, d) := by
  have hdot : '.' ∉ name.toList := by
    rw [← relationshipByName_name hr]
    exact hc.dotless e he r (relationshipByName_mem hr)
  rw [pathOf, cutDot_joinName hdot]
  simp [hr]

lemma pathOf_eq_none_of_hasName {a : Attribute} (ha : a ∈ e.attributes) (hname : a.hasName f) : pathOf e f = none := by
  by_contra hpath
  obtain ⟨⟨r, rest⟩, hr⟩ := Option.ne_none_iff_exists'.mp hpath
  obtain ⟨hrel, rfl⟩ := pathOf_eq_some hr
  have hno := hc.paths e he r (relationshipByName_mem hrel) a ha rest
  rw [hname] at hno
  cases hno

lemma Usable.pathOf_eq_none (h : Usable e f) : pathOf e f = none := by
  obtain ⟨a, ha, hname, -⟩ := h
  exact pathOf_eq_none_of_hasName hc he (mem_attributes_of_visible ha) hname

lemma attributeByName_eq {a : Attribute} (ha : a ∈ e.attributes) (hf : a.hasName f) :
    e.attributeByName f = some a := by
  obtain ⟨b, hb⟩ := Entity.attributeByName_of_hasName ha hf
  obtain ⟨hmem, hname⟩ := Entity.attributeByName_hasName hb
  rw [hb, hc.names e he b hmem a ha f hname hf]

lemma Usable.exposed_columnOf (h : Usable e f) : Exposed e (columnOf e f) := by
  obtain ⟨a, ha, hname, hmask⟩ := h
  refine ⟨a, ha, ?_, hmask⟩
  rw [columnOf, attributeByName_eq hc he (mem_attributes_of_visible ha) hname]

lemma Usable.exposed_of_column (h : Usable e c) (hcol : ∃ a ∈ e.attributes, a.name = c) :
    Exposed e c := by
  obtain ⟨a, ha, hname, hmask⟩ := h
  obtain ⟨b, hb, rfl⟩ := hcol
  have heq := hc.names e he a (mem_attributes_of_visible ha) b hb b.name hname b.hasName_name
  exact ⟨a, ha, by rw [heq], hmask⟩

end Configured

variable {res : Resolved}

lemma validateFields_ok {fields : List String} (h : validateFields res fields = .ok ()) :
    ∀ f ∈ fields, ∃ a ∈ res.entity.visible, a.hasName f := by
  intro f hf
  unfold validateFields at h
  split at h
  · cases h
  · rename_i hnone
    have hany := find?_eq_none.mp hnone f hf
    simpa [res.shown] using hany

lemma validateUnmaskedFields_ok {fields : List String}
    (h : validateUnmaskedFields res fields = .ok ()) :
    ∀ f ∈ fields, ∀ a ∈ res.entity.visible, a.hasName f → a.mask = "" := by
  intro f hf a ha hname
  unfold validateUnmaskedFields at h
  split at h
  · cases h
  · rename_i hnone
    have hany := find?_eq_none.mp hnone f hf
    simp only [res.shown, List.any_eq_true, Bool.and_eq_true, bne_iff_ne, not_exists, not_and, not_not] at hany
    exact hany a ha hname

lemma FieldUses.check_usable {u : FieldUses} (h : u.check res = .ok ()) :
    ∀ f ∈ u.compared, Usable res.entity f := by
  obtain ⟨_, hvisible, h⟩ := bind_eq_ok.mp h
  obtain ⟨_, hunmasked, h⟩ := bind_eq_ok.mp h
  intro f hf
  obtain ⟨a, ha, hname⟩ := validateFields_ok hvisible f (by simp [hf])
  exact ⟨a, ha, hname, validateUnmaskedFields_ok hunmasked f hf a ha hname⟩

variable {tc : Context}

lemma resolveDMLEntity_ok (h : resolveDMLEntity tc name = .ok res) :
    tc.registry.resolve name = some res := by
  unfold resolveDMLEntity at h
  split at h
  · cases h
  · rename_i res' hres
    split at h
    · cases h
      exact hres
    · cases h

lemma relatedTarget_ok {fields : List String} {target : Resolved}
    {g : Rbac.Decision} (h : relatedTarget tc e r fields = .ok (target, g)) :
    tc.registry.resolve r.target = some target ∧
      ∀ f ∈ fields ++ (relationJoin r).target, Usable target.entity f := by
  obtain ⟨t, ht, h⟩ := bind_eq_ok.mp h
  obtain ⟨_, -, h⟩ := bind_eq_ok.mp h
  obtain ⟨_, hcheck, h⟩ := bind_eq_ok.mp h
  obtain ⟨g', -, h⟩ := bind_eq_ok.mp h
  rw [pure_eq_ok, Except.ok.injEq, Prod.mk.injEq] at h
  obtain ⟨rfl, -⟩ := h
  exact ⟨resolveDMLEntity_ok ht, FieldUses.check_usable hcheck⟩

lemma mem_of_lookup {α : Type} {l : List (String × α)} {k : String} {v : α} (h : l.lookup k = some v) : (k, v) ∈ l := by
  obtain ⟨l₁, l₂, rfl, -⟩ := lookup_eq_some_iff.mp h
  simp

lemma exists_lookup {α : Type} {l : List (String × α)} {k : String} (h : k ∈ l.map (·.1)) :
    ∃ v, l.lookup k = some v := by
  obtain ⟨p, hp, rfl⟩ := mem_map.mp h
  exact Option.isSome_iff_exists.mp (List.lookup_isSome_iff.mpr ⟨p, hp, by simp⟩)

lemma zip_map_self {α β : Type} (f : α → β) (l : List α) : l.zip (l.map f) = l.map fun a => (a, f a) := by
  have hmap := zip_map' (f := id) (g := f) (l := l)
  rwa [map_id] at hmap

lemma mem_joinPairs {p : JoinPair} (h : p ∈ joinPairs (relationJoin r)) :
    (p.left, p.right) ∈ r.joinOn ∧ p.left ∈ (relationJoin r).locals ∧ p.right ∈ (relationJoin r).target := by
  obtain ⟨⟨l, t⟩, hzip, rfl⟩ := mem_map.mp h
  obtain ⟨hl, ht⟩ := of_mem_zip hzip
  refine ⟨?_, hl, ht⟩
  have hkey : l ∈ r.joinOn.map (·.1) := (mem_insertionSort (· ≤ ·)).mp hl
  obtain ⟨v, hv⟩ := exists_lookup hkey
  have htv : t = v := by
    rw [relationJoin, zip_map_self] at hzip
    obtain ⟨l', -, heq⟩ := mem_map.mp hzip
    obtain ⟨rfl, rfl⟩ := Prod.mk.inj heq
    rw [hv, Option.getD_some]
  rw [htv]
  exact mem_of_lookup hv

def JoinExposed (e target : Entity) (on : List JoinPair) : Prop :=
  ∀ p ∈ on, Exposed e p.left ∧ Exposed target p.right

/-- A predicate of the request compares exposed columns, of the entity or a target joined, and in
an EXISTS (but for its row filter) of its target. -/
def Compares (tc : Context) (filters : List RowFilter) (e : Entity) : Predicate → Prop :=
  Each (fun c => Names tc e c.field) fun r on p => ∃ relation target inner filter,
    relationshipByName e relation.name = some relation ∧ tc.registry.resolve relation.target = some target ∧
    r = target.entity.ref ∧ p = andPreds inner filter ∧ (target.entity, filter) ∈ filters ∧
    JoinExposed e target.entity on ∧ Plain (Exposed target.entity) inner

def JoinCompares (tc : Context) (filters : List RowFilter) (e : Entity) (j : JoinSpec) : Prop :=
  ∃ relation target, relationshipByName e j.aliasName = some relation ∧
    tc.registry.resolve relation.target = some target ∧ j.right = target.entity.ref ∧
    (target.entity, j.rightPred) ∈ filters ∧ JoinExposed e target.entity j.on

section Planning
variable {tc : Context} (hc : Configured tc.registry) {e : Entity} (he : e ∈ tc.registry.entities)
include hc he

lemma joinExposed_of_usable {target : Resolved} (hr : r ∈ e.relations)
    (htarget : tc.registry.resolve r.target = some target) (hlocal : ∀ l ∈ (relationJoin r).locals, Usable e l)
    (hright : ∀ f ∈ (relationJoin r).target, Usable target.entity f) :
    JoinExposed e target.entity (joinPairs (relationJoin r)) := by
  intro p hp
  obtain ⟨hon, hl, ht⟩ := mem_joinPairs hp
  obtain ⟨hcol, hcols⟩ := hc.joins e he r hr _ hon
  exact ⟨(hlocal _ hl).exposed_of_column hc he hcol,
    (hright _ ht).exposed_of_column hc (Registry.resolve_mem htarget) (hcols target htarget)⟩

section Related
variable {steps : List JoinStep} (hsteps : ∀ s ∈ steps, s.Accepted tc e)
include hsteps

lemma names_of_mem_rename {k v : String} (h : (k, v) ∈ (Related.add {} steps).rename) :
    (pathOf e k).isSome ∧ Names tc e v := by
  simp only [Related.add, nil_append, mem_flatMap, JoinStep.rename, mem_map] at h
  obtain ⟨s, hs, f, hf, heq⟩ := h
  obtain ⟨rfl, rfl⟩ := Prod.mk.inj heq
  have hstep := hsteps s hs
  obtain ⟨htarget, husable⟩ := relatedTarget_ok hstep.authorized
  have hcol : ((s.target.entity.attributeByName f).map (·.name)).getD "" = columnOf s.target.entity f := by
    obtain ⟨a, ha, hname, -⟩ := husable f (mem_append_left _ hf)
    rw [columnOf, attributeByName_eq hc (Registry.resolve_mem htarget) (mem_attributes_of_visible ha) hname]
    rfl
  rw [hcol]
  refine ⟨by rw [pathOf_joinName hc he hstep.named]; rfl, .inr ⟨s.relation, _, s.target,
    pathOf_joinName hc he hstep.named _, htarget, ?_⟩⟩
  exact (husable f (mem_append_left _ hf)).exposed_columnOf hc (Registry.resolve_mem htarget)

lemma field_eq_of_usable (h : Usable e f) : (Related.add {} steps).field f = f := by
  unfold Related.field
  cases hv : (Related.add {} steps).rename.lookup f with
  | none => rfl
  | some v =>
    have hpath := (names_of_mem_rename hc he hsteps (mem_of_lookup hv)).1
    rw [h.pathOf_eq_none hc he] at hpath
    cases hpath

lemma names_field_of_path {paths : List String} (hrels : byRelation e paths = steps.map fun s => (s.relation.name, s.fields))
    (hf : f ∈ paths) (hpath : (pathOf e f).isSome) : Names tc e ((Related.add {} steps).field f) := by
  obtain ⟨⟨r, g⟩, hr⟩ := Option.isSome_iff_exists.mp hpath
  obtain ⟨hrel, hname⟩ := pathOf_eq_some hr
  -- The path is among those its relationship was joined for.
  have hmem : (r, g) ∈ paths.filterMap (pathOf e) := mem_filterMap.mpr ⟨f, hf, hr⟩
  have hby : (r.name, ((paths.filterMap (pathOf e)).filter (·.1.name == r.name)).map (·.2)) ∈ byRelation e paths := by
    refine mem_map.mpr ⟨r.name, ?_, rfl⟩
    rw [sorted, mem_insertionSort, mem_firstOccurrences]
    exact mem_map.mpr ⟨(r, g), hmem, rfl⟩
  rw [hrels] at hby
  obtain ⟨s, hs, heq⟩ := mem_map.mp hby
  obtain ⟨hsname, hsfields⟩ := Prod.mk.inj heq
  have hg : g ∈ s.fields := by
    rw [hsfields]
    exact mem_map.mpr ⟨(r, g), mem_filter.mpr ⟨hmem, by simp⟩, rfl⟩
  have hkey : f ∈ (Related.add {} steps).rename.map (·.1) := by
    simp only [Related.add, nil_append, map_flatMap, mem_flatMap, JoinStep.rename, map_map]
    refine ⟨s, hs, mem_map.mpr ⟨g, hg, ?_⟩⟩
    rw [hname, ← hsname]
    rfl
  obtain ⟨v, hv⟩ := exists_lookup hkey
  rw [Related.field, hv, Option.getD_some]
  exact (names_of_mem_rename hc he hsteps (mem_of_lookup hv)).2

end Related

def Checked (e : Entity) (paths : List String) (f : String) : Prop :=
  Usable e f ∨ ((pathOf e f).isSome ∧ f ∈ paths)

lemma columnOf_of_path (h : (pathOf e f).isSome) : columnOf e f = f := by
  unfold columnOf
  cases ha : e.attributeByName f with
  | none => rfl
  | some a =>
    obtain ⟨hmem, hname⟩ := Entity.attributeByName_hasName ha
    rw [pathOf_eq_none_of_hasName hc he hmem hname] at h
    cases h

/-- A request related compares exposed columns, when its own fields and the columns its
relationships read were checked. -/
lemma relate_compares {pred : Predicate} {paths : List String} {rs : Relations} (h : relate tc e pred paths = .ok rs)
    (hpred : ∀ c ∈ conditions pred, ∃ f, c.field = columnOf e f ∧ Checked e paths f)
    (hlocals : ∀ l ∈ rs.locals, Usable e l) :
    Compares tc rs.filters e rs.pred ∧ (∀ j ∈ rs.rel.joins, JoinCompares tc rs.filters e j) ∧
      ∀ f, Checked e paths f → Names tc e (rs.rel.field (columnOf e f)) := by
  obtain ⟨⟨steps, hsteps, hrels, hrel, hsub, hfilters⟩, hout⟩ := relate_ok h
  have hnames : ∀ f, Checked e paths f → Names tc e (rs.rel.field (columnOf e f)) := by
    rintro f (hf | ⟨hpath, hmem⟩)
    · have hcol := hf.exposed_columnOf hc he
      rw [hrel, field_eq_of_usable hc he hsteps hcol.usable]
      exact .inl hcol
    · rw [columnOf_of_path hc he hpath, hrel]
      exact names_field_of_path hc he hsteps hrels hmem hpath
  refine ⟨?_, ?_, hnames⟩
  · refine (hout (fun c => Names tc e c.field) fun c hcond => ?_).mono (fun _ => id) ?_
    · obtain ⟨f, hf, hchecked⟩ := hpred c hcond
      simp only [hf]
      exact hnames f hchecked
    · rintro r on p ⟨hex⟩
      obtain ⟨htarget, husable⟩ := relatedTarget_ok hex.authorized
      have hmem := Registry.resolve_mem htarget
      refine ⟨hex.relation, hex.target, hex.inner, hex.grant.rowFilter, hex.named, htarget, hex.ref_eq, hex.pred_eq,
        hex.filter_mem, ?_, ?_⟩
      · have hon := joinExposed_of_usable hc he (relationshipByName_mem hex.named) htarget
          (fun l hl => hlocals l (hex.local_mem l hl)) (fun f hf => husable f (mem_append_right _ hf))
        exact fun p hp => hon p (hex.on_eq ▸ hp)
      · refine each_coercePredicate (F := Exposed hex.target.entity) (each_of_hasExists ?_ fun c hcond => ?_) hex.coerced
        · rw [columnsPredicate, hasExists_mapConditions, hex.plain]
        · rw [columnsPredicate, conditions_mapConditions] at hcond
          obtain ⟨c', hc', rfl⟩ := mem_map.mp hcond
          have hfield : c'.field ∈ fields hex.request := mem_fields.mpr ⟨c', hc', rfl⟩
          exact (husable _ (mem_append_left _ hfield)).exposed_columnOf hc hmem
  · intro j hj
    rw [hrel] at hj hsub hfilters
    simp only [Related.add, nil_append, mem_map] at hj hfilters hsub
    obtain ⟨s, hs, rfl⟩ := hj
    obtain ⟨htarget, husable⟩ := relatedTarget_ok (hsteps s hs).authorized
    refine ⟨s.relation, s.target, (hsteps s hs).named, htarget, rfl, hfilters _ ⟨s, hs, rfl⟩, ?_⟩
    refine joinExposed_of_usable hc he (relationshipByName_mem (hsteps s hs).named) htarget (fun l hl => ?_)
      (fun f hf => husable f (mem_append_right _ hf))
    exact hlocals l (hsub l (mem_flatMap.mpr ⟨s, hs, hl⟩))

end Planning

lemma planEntity_ok {action : Action} {filter : List Cond}
    {pred : Predicate} (h : planEntity tc name action filter = .ok (res, pred)) :
    tc.registry.resolve name = some res ∧
      ∀ c ∈ conditions pred, ∃ f ∈ filterFields filter, c.field = columnOf res.entity f := by
  obtain ⟨res', hres, h⟩ := bind_eq_ok.mp h
  obtain ⟨_, -, h⟩ := bind_eq_ok.mp h
  obtain ⟨p, hp, h⟩ := bind_eq_ok.mp h
  obtain ⟨_, -, h⟩ := bind_eq_ok.mp h
  obtain ⟨q, hq, h⟩ := bind_eq_ok.mp h
  rw [pure_eq_ok, Except.ok.injEq, Prod.mk.injEq] at h
  obtain ⟨rfl, rfl⟩ := h
  refine ⟨resolveDMLEntity_ok hres, ?_⟩
  have hcols : Each (fun c => ∃ f ∈ filterFields filter, c.field = columnOf res'.entity f) (fun _ _ _ => True)
      (columnsPredicate res'.entity p) := by
    refine each_of_conditions (fun c hc => ?_) fun _ _ _ => .inl trivial
    rw [columnsPredicate, conditions_mapConditions] at hc
    obtain ⟨c', hc', rfl⟩ := mem_map.mp hc
    exact ⟨c'.field, filterToPredicate_fields hp c' hc', rfl⟩
  exact each_conditions (each_coercePredicate
    (F := fun field => ∃ f ∈ filterFields filter, field = columnOf res'.entity f) hcols hq)

variable {input : ReadInput} {rel : Related} {req : Rbac.Request}

section Orders
variable {tc : Context} (hc : Configured tc.registry) {res : Resolved} (he : res.entity ∈ tc.registry.entities)
include hc he

lemma orderTerm_names {t : OrderJSON} {term : OrderTerm} {related : Bool}
    (hrel : (pathOf res.entity t.field).isSome → Names tc res.entity (rel.field (columnOf res.entity t.field)))
    (h : orderTerm res input t rel = .ok (term, related)) : Names tc res.entity term.field := by
  unfold orderTerm at h
  split at h
  · cases h
  split at h
  · rename_i hpath
    split at h
    · cases h
    · cases h
      have hnames := hrel hpath
      rwa [columnOf_of_path hc he hpath] at hnames
  · obtain ⟨_, hcheck, h⟩ := bind_eq_ok.mp h
    have husable := FieldUses.check_usable hcheck t.field (by simp)
    simp only at h
    split at h
    · cases h
    · cases h
      obtain ⟨a, ha, hname, hmask⟩ := husable
      rw [attributeByName_eq hc he (mem_attributes_of_visible ha) hname]
      exact .inl ⟨a, ha, rfl, hmask⟩

lemma orderTerms_names {ts : List OrderJSON} {terms out : List OrderTerm}
    {across across' : Bool}
    (hrel : ∀ t ∈ ts, (pathOf res.entity t.field).isSome → Names tc res.entity (rel.field (columnOf res.entity t.field)))
    (hterms : ∀ t ∈ terms, Names tc res.entity t.field)
    (h : orderTerms res input rel ts terms across = .ok (out, across')) : ∀ t ∈ out, Names tc res.entity t.field := by
  induction ts generalizing terms across with
  | nil =>
    cases h
    exact hterms
  | cons t ts ih =>
    have htail : ∀ u ∈ ts, (pathOf res.entity u.field).isSome →
        Names tc res.entity (rel.field (columnOf res.entity u.field)) := fun u hu => hrel u (mem_cons_of_mem _ hu)
    rw [orderTerms] at h
    obtain ⟨⟨term, related⟩, hterm, h⟩ := bind_eq_ok.mp h
    have hnew := orderTerm_names hc he (hrel t (by simp)) hterm
    simp only at h
    split at h
    · split at h
      · exact ih htail hterms h
      · cases h
    · refine ih htail (fun u hu => ?_) h
      rcases mem_append.mp hu with hu | hu
      · exact hterms u hu
      · exact mem_singleton.mp hu ▸ hnew

/-- An order's terms are of exposed columns, but for the key columns it adds. -/
structure OrderNames (tc : Context) (res : Resolved) (input : ReadInput) (order : ReadOrder) : Prop where
  terms : ∀ t ∈ order.terms, t.field ∈ order.keyFields ∨ Names tc res.entity t.field
  key : ∀ c ∈ order.keyFields, c ∈ order.fields
  unmasked : ∀ c ∈ order.keyFields, ∀ a ∈ res.entity.visible, a.hasName c → a.mask = ""
  unordered : input.orderBy = [] → order.terms = []

lemma planReadOrder_names {order : ReadOrder}
    (hrel : ∀ t ∈ input.orderBy, (pathOf res.entity t.field).isSome →
      Names tc res.entity (rel.field (columnOf res.entity t.field)))
    (h : planReadOrder res input rel = .ok order) : OrderNames tc res input order := by
  unfold planReadOrder at h
  split at h
  · cases h
    exact ⟨by simp, by simp, by simp, fun _ => rfl⟩
  rename_i hordered
  split at h
  · cases h
  · obtain ⟨⟨terms, across⟩, hterms, h⟩ := bind_eq_ok.mp h
    have hnames := orderTerms_names hc he hrel (by simp) hterms
    have hplain : OrderNames tc res input { terms } :=
      ⟨fun t ht => .inr (hnames t ht), by simp, by simp, fun hno => (hordered hno).elim⟩
    simp only at h
    split at h
    · rename_i key hkey
      split at h
      · rename_i hunmasked
        cases h
        refine ⟨fun t ht => ?_, fun c hcol => ?_, fun c hcol => ?_, fun hno => (hordered hno).elim⟩
        · rcases mem_append.mp ht with ht | ht
          · exact .inr (hnames t ht)
          · obtain ⟨c, hcol, rfl⟩ := mem_map.mp ht
            exact .inl hcol
        · simp only [ReadOrder.fields, map_append, map_map, mem_append]
          exact .inr (mem_map.mpr ⟨c, hcol, rfl⟩)
        · have hmem : c ∈ key := mem_firstOccurrences.mp (mem_filter.mp hcol).1
          have hok : validateUnmaskedFields res key = .ok () := by
            simp only [Bool.and_eq_true, Bool.not_eq_true', hasMaskedField] at hunmasked
            revert hunmasked
            cases validateUnmaskedFields res key with
            | ok u => exact fun _ => rfl
            | error e => simp
          exact validateUnmaskedFields_ok hok c hmem
      · cases h
        exact hplain
    · cases h
      exact hplain

lemma orderRead_names {req' : Rbac.Request} {order : ReadOrder}
    (hrel : ∀ t ∈ input.orderBy, (pathOf res.entity t.field).isSome →
      Names tc res.entity (rel.field (columnOf res.entity t.field)))
    (h : orderRead tc res input req rel = .ok (order, req')) : OrderNames tc res input order := by
  unfold orderRead at h
  split at h
  · cases h
  · obtain ⟨planned, hplanned, h⟩ := bind_eq_ok.mp h
    have hnames := planReadOrder_names hc he hrel hplanned
    have hwithout : OrderNames tc res input planned.withoutKey := by
      refine ⟨fun t ht => ?_, by simp [ReadOrder.withoutKey], by simp [ReadOrder.withoutKey], fun hno => ?_⟩
      · obtain ⟨hmem, hkey⟩ := mem_filter.mp ht
        refine .inr ((hnames.terms t hmem).resolve_left fun hk => ?_)
        simp [hk] at hkey
      · simp [ReadOrder.withoutKey, hnames.unordered hno]
    have heq : order = planned ∨ order = planned.withoutKey := by
      simp only at h
      split at h <;> split at h <;> cases h <;> simp
    rcases heq with rfl | rfl
    · exact hnames
    · exact hwithout

end Orders

/-- Every column a read compares at the caller's request is exposed by the entity it
belongs to. -/
structure ReadCompares (tc : Context) (input : ReadInput) (plan : ReadPlan) : Prop where
  pred : Compares tc plan.targets plan.res.entity plan.pred
  keyset : Plain (Names tc plan.res.entity) plan.keyset
  order : ∀ t ∈ plan.orderTerms, Names tc plan.res.entity t.field
  key : ∀ c ∈ plan.order.keyFields ++ plan.keysetCols, Exposed plan.res.entity c
  distinct : input.distinct = true → ∀ f ∈ plan.grant.fields, Exposed plan.res.entity (columnOf plan.res.entity f)
  joins : ∀ j ∈ plan.rel.joins, JoinCompares tc plan.targets plan.res.entity j
  expand : ∀ name ∈ input.expand, ∃ r t, relationshipByName plan.res.entity name = some r ∧
    tc.registry.resolve r.target = some t ∧ JoinExposed plan.res.entity t.entity (joinPairs (relationJoin r))

def ReadPlan.KeyVisible (plan : ReadPlan) : Prop :=
  ∀ c ∈ plan.order.keyFields ++ plan.keysetCols, ∃ a ∈ plan.res.entity.visible, a.name = c

/-- Every column an aggregate compares at the caller's request is exposed; having and the order
name groups and aggregates. -/
structure AggregateCompares (tc : Context) (plan : AggregatePlan) (input : AggregateInput) (expr : Expr)
    (shape : AggregateShaped tc plan input expr) : Prop where
  pred : Compares tc plan.targets plan.res.entity plan.pred
  joins : ∀ j ∈ plan.rel.joins, JoinCompares tc plan.targets plan.res.entity j
  groups : ∀ g ∈ input.groupBy, Names tc plan.res.entity (plan.rel.field (columnOf plan.res.entity g))
  calls : ∀ c ∈ shape.calls, (c.field = "" ∧ c.func = .count) ∨
    Exposed plan.res.entity (columnOf plan.res.entity c.field)
  having : ∀ c ∈ conditions (shape.toIR.renamed shape.having), c.field ∈ shape.calls.map (·.name) ∨
    ∃ g ∈ input.groupBy, c.field = plan.rel.field (columnOf plan.res.entity g)
  order : ∀ t ∈ shape.terms, t.field ∈ shape.calls.map (·.name) ∨
    ∃ g ∈ input.groupBy, t.field = plan.rel.field (columnOf plan.res.entity g)

lemma mem_splitPaths_own {fields : List String} :
    f ∈ (splitPaths e fields).1 ↔ f ∈ fields ∧ pathOf e f = none := by
  simp [splitPaths, partition_eq_filter_filter]

lemma mem_splitPaths_paths {fields : List String} :
    f ∈ (splitPaths e fields).2 ↔ f ∈ fields ∧ (pathOf e f).isSome := by
  simp [splitPaths, partition_eq_filter_filter, Option.isSome_iff_ne_none]

lemma checkExpansions_ok {parent : Entity} {names : List String}
    (h : checkExpansions tc parent names = .ok ()) :
    ∀ name ∈ names, ∃ r t, relationshipByName parent name = some r ∧ tc.registry.resolve r.target = some t ∧
      ∀ f ∈ (relationJoin r).target, Usable t.entity f := by
  induction names with
  | nil => simp
  | cons name names ih =>
    rw [checkExpansions] at h
    split at h
    · cases h
    · rename_i r hr
      obtain ⟨_, -, h⟩ := bind_eq_ok.mp h
      obtain ⟨t, ht, h⟩ := bind_eq_ok.mp h
      obtain ⟨_, hcheck, h⟩ := bind_eq_ok.mp h
      obtain ⟨_, -, h⟩ := bind_eq_ok.mp h
      intro n hn
      rcases mem_cons.mp hn with rfl | hn
      · exact ⟨r, t, hr, resolveDMLEntity_ok ht, FieldUses.check_usable hcheck⟩
      · exact ih h n hn

section Reads
variable {tc : Context} {input : ReadInput} {plan : ReadPlan} (planned : ReadPlanned tc input plan)
include planned

lemma readPlanned_mem : plan.res.entity ∈ tc.registry.entities :=
  Registry.resolve_mem (planEntity_ok planned.entity_ok).1

lemma readPlanned_usable :
    (∀ f ∈ filterFields input.filter ++ sorted input.cursor.keys, pathOf plan.res.entity f = none →
      Usable plan.res.entity f) ∧
    (∀ l ∈ planned.related.locals, Usable plan.res.entity l) ∧
    (∀ l ∈ expandJoinColumns plan.res.entity input.expand, Usable plan.res.entity l) ∧
    checkExpansions tc plan.res.entity input.expand = .ok () := by
  obtain ⟨_, hcheck, hexpand⟩ := bind_eq_ok.mp planned.uses_ok
  have husable := FieldUses.check_usable hcheck
  simp only [mem_append] at husable
  refine ⟨fun f hf hpath => husable f (.inl (.inl (mem_splitPaths_own.mpr ⟨hf, hpath⟩))), fun l hl =>
    husable l (.inl (.inr hl)), fun l hl => husable l (.inr hl), hexpand⟩

variable (hc : Configured tc.registry)
include hc

lemma readPlanned_relate :
    Compares tc plan.targets plan.res.entity plan.pred ∧
      (∀ j ∈ plan.rel.joins, JoinCompares tc plan.targets plan.res.entity j) ∧
      ∀ t ∈ input.orderBy, (pathOf plan.res.entity t.field).isSome →
        Names tc plan.res.entity (plan.rel.field (columnOf plan.res.entity t.field)) := by
  have he := readPlanned_mem planned
  obtain ⟨hown, hlocals, -, -⟩ := readPlanned_usable planned
  obtain ⟨-, hpred⟩ := planEntity_ok planned.entity_ok
  have hfilter : ∀ f ∈ filterFields input.filter, f ∈ planned.readFields := by
    have hfields := planned.fields_ok
    unfold readFieldNames at hfields
    split at hfields
    · cases hfields
    · rw [Except.ok.injEq, Prod.mk.injEq] at hfields
      intro f hf
      rw [← hfields.1]
      simp [hf]
  have hchecked : ∀ c ∈ conditions planned.request, ∃ f, c.field = columnOf plan.res.entity f ∧
      Checked plan.res.entity ((splitPaths plan.res.entity planned.readFields).2 ++
        (splitPaths plan.res.entity (input.orderBy.map (·.field))).2) f := by
    intro c hcond
    obtain ⟨f, hf, hfield⟩ := hpred c hcond
    refine ⟨f, hfield, ?_⟩
    by_cases hpath : pathOf plan.res.entity f = none
    · exact .inl (hown f (mem_append_left _ hf) hpath)
    · have hsome : (pathOf plan.res.entity f).isSome := Option.isSome_iff_ne_none.mpr hpath
      exact .inr ⟨hsome, mem_append_left _ (mem_splitPaths_paths.mpr ⟨hfilter f hf, hsome⟩)⟩
  obtain ⟨hcompares, hjoins, hnames⟩ := relate_compares hc he planned.relate_ok hchecked hlocals
  rw [planned.targets_eq, planned.pred_eq, planned.rel_eq]
  refine ⟨hcompares, hjoins, fun t ht hpath => hnames t.field (.inr ⟨hpath, ?_⟩)⟩
  exact mem_append_right _ (mem_splitPaths_paths.mpr ⟨mem_map_of_mem ht, hpath⟩)

lemma readCompares_iff : ReadCompares tc input plan ↔ plan.KeyVisible := by
  have he := readPlanned_mem planned
  constructor
  · intro h c hcol
    obtain ⟨a, ha, hname, -⟩ := h.key c hcol
    exact ⟨a, ha, hname⟩
  · intro hvisible
    obtain ⟨hpred, hjoins, hrel⟩ := readPlanned_relate planned hc
    obtain ⟨hown, -, hexpandLocals, hexpand⟩ := readPlanned_usable planned
    have horder := orderRead_names hc he (planned.rel_eq ▸ hrel) planned.order_ok
    obtain ⟨hkeyset, hcursor, hordered⟩ := readCursor_spec planned.cursor_ok
    -- A key column ordered by is unmasked by the order's check, one resumed on by the cursor's.
    have hkey : ∀ c ∈ plan.order.keyFields ++ plan.keysetCols, Exposed plan.res.entity c := by
      intro c hcol
      obtain ⟨a, ha, hname⟩ := hvisible c hcol
      have hnamed : a.hasName c := by rw [← hname]; exact a.hasName_name
      rcases mem_append.mp hcol with hcol | hcol
      · exact ⟨a, ha, hname, horder.unmasked c hcol a ha hnamed⟩
      · have hpath := pathOf_eq_none_of_hasName hc he (mem_attributes_of_visible ha) hnamed
        have hmem : c ∈ sorted input.cursor.keys := (mem_insertionSort _).mpr (hcursor c hcol)
        exact (hown c (mem_append_right _ hmem) hpath).exposed_of_column hc he
          ⟨a, mem_attributes_of_visible ha, hname⟩
    have hterms : ∀ f ∈ plan.order.fields, Names tc plan.res.entity f := by
      intro f hf
      obtain ⟨t, ht, rfl⟩ := mem_map.mp hf
      exact (horder.terms t ht).elim (fun hk => .inl (hkey _ (mem_append_left _ hk))) fun hn => hn
    refine ⟨hpred, ?_, ?_, hkey, ?_, hjoins, ?_⟩
    · refine hkeyset.mono (fun c hcol => ?_) fun _ _ _ => id
      exact hcol.elim (fun hk => .inl (hkey _ (mem_append_right _ hk))) fun hf => hterms _ hf
    · intro t ht
      unfold ReadPlan.orderTerms at ht
      split at ht
      · exact hterms _ (mem_map_of_mem ht)
      · obtain ⟨c, hcol, rfl⟩ := mem_map.mp ht
        exact .inl (hkey c (mem_append_right _ hcol))
    · intro hdistinct f hf
      obtain ⟨g, -, hgrant⟩ := bind_eq_ok.mp planned.grant_ok
      obtain ⟨_, hcheck, hgrant⟩ := bind_eq_ok.mp hgrant
      rw [pure_eq_ok, Except.ok.injEq] at hgrant
      subst hgrant
      exact (FieldUses.check_usable hcheck f (by simpa [hdistinct] using hf)).exposed_columnOf hc he
    · intro name hname
      obtain ⟨r, t, hr, ht, husable⟩ := checkExpansions_ok hexpand name hname
      refine ⟨r, t, hr, ht, joinExposed_of_usable hc he (relationshipByName_mem hr) ht (fun l hl => ?_) husable⟩
      refine hexpandLocals l (mem_firstOccurrences.mpr (mem_flatMap.mpr ⟨name, hname, ?_⟩))
      simpa [hr] using hl

end Reads

lemma aggregateCallsFrom_ok {groupBy : List String} {aggs : List AggJSON} {calls out : List AggCall}
    (h : aggregateCallsFrom groupBy aggs calls = .ok out) :
    ∀ c ∈ out, c ∈ calls ∨ ∃ a ∈ aggs, c.field = a.field ∧ (c.field = "" → c.func = .count) := by
  induction aggs generalizing calls with
  | nil =>
    cases h
    exact fun c => .inl
  | cons a aggs ih =>
    simp only [aggregateCallsFrom] at h
    split at h
    · cases h
    split at h
    · cases h
    rename_i hcount
    split at h
    · cases h
    split at h
    · cases h
    split at h
    · cases h
    · intro c hmem
      rcases ih h c hmem with hold | ⟨b, hb, hbc⟩
      · rcases mem_append.mp hold with hold | hnew
        · exact .inl hold
        · obtain rfl := mem_singleton.mp hnew
          refine .inr ⟨a, by simp, rfl, fun hempty => ?_⟩
          by_contra hne
          exact hcount ⟨hempty, hne⟩
      · exact .inr ⟨b, mem_cons_of_mem _ hb, hbc⟩

lemma aggregateTerms_ok {calls : List AggCall} {columns : List String} {toIR : Related}
    {orderBy : List OrderJSON} {terms : List OrderTerm}
    (h : aggregateTerms res calls columns toIR orderBy = .ok terms) :
    ∀ t ∈ terms, ∃ f ∈ columns, t.field = toIR.field f := by
  induction orderBy generalizing terms with
  | nil =>
    cases h
    simp
  | cons o orderBy ih =>
    rw [aggregateTerms] at h
    split at h
    · cases h
    split at h
    · cases h
    · rename_i hcol
      obtain ⟨rest, hrest, h⟩ := bind_eq_ok.mp h
      cases h
      intro t ht
      rcases mem_cons.mp ht with rfl | ht
      · exact ⟨o.field, by simpa using hcol, rfl⟩
      · exact ih hrest t ht

section Aggregates
variable {tc : Context} {input : AggregateInput} {plan : AggregatePlan} {expr : Expr}
  (planned : AggregatePlanned tc input plan) (shape : AggregateShaped tc plan input expr)

lemma AggregateShaped.field_toIR (hf : f ∈ input.groupBy ++ shape.calls.map (·.name)) :
    shape.toIR.field f ∈ shape.calls.map (·.name) ∨
      ∃ g ∈ input.groupBy, shape.toIR.field f = plan.rel.field (columnOf plan.res.entity g) := by
  have hrename : shape.toIR.rename =
      input.groupBy.map fun g => (g, plan.rel.field (columnOf plan.res.entity g)) := by
    rw [shape.toIR_eq]
    exact zip_map_self _ _
  unfold Related.field
  rw [hrename]
  cases hv : (input.groupBy.map fun g => (g, plan.rel.field (columnOf plan.res.entity g))).lookup f with
  | some v =>
    obtain ⟨g, hg, heq⟩ := mem_map.mp (mem_of_lookup hv)
    obtain ⟨rfl, rfl⟩ := Prod.mk.inj heq
    exact .inr ⟨g, hg, rfl⟩
  | none =>
    rcases mem_append.mp hf with hgroup | hcall
    · obtain ⟨v, hv'⟩ := exists_lookup (l := input.groupBy.map fun g =>
        (g, plan.rel.field (columnOf plan.res.entity g))) (k := f) (by simpa using hgroup)
      rw [hv] at hv'
      cases hv'
    · exact .inl hcall

include planned in
lemma aggregateCompares (hc : Configured tc.registry) : AggregateCompares tc plan input expr shape := by
  obtain ⟨hres, hpred⟩ := planEntity_ok planned.entity_ok
  have he := Registry.resolve_mem hres
  have husable := FieldUses.check_usable planned.uses_ok
  have hchecked : ∀ f ∈ aggregateFieldNames input,
      Checked plan.res.entity (splitPaths plan.res.entity (aggregateFieldNames input)).2 f := by
    intro f hf
    by_cases hpath : pathOf plan.res.entity f = none
    · exact .inl (husable f (mem_append_left _ (mem_splitPaths_own.mpr ⟨hf, hpath⟩)))
    · have hsome : (pathOf plan.res.entity f).isSome := Option.isSome_iff_ne_none.mpr hpath
      exact .inr ⟨hsome, mem_splitPaths_paths.mpr ⟨hf, hsome⟩⟩
  obtain ⟨hcompares, hjoins, hnames⟩ := relate_compares hc he planned.relate_ok
    (fun c hcond => by
      obtain ⟨f, hf, hfield⟩ := hpred c hcond
      exact ⟨f, hfield, hchecked f (by simp [aggregateFieldNames, hf])⟩)
    fun l hl => husable l (mem_append_right _ hl)
  rw [← planned.targets_eq, ← planned.pred_eq] at hcompares
  rw [← planned.targets_eq, ← planned.rel_eq] at hjoins
  rw [← planned.rel_eq] at hnames
  refine ⟨hcompares, hjoins, fun g hg => hnames g (hchecked g (by simp [aggregateFieldNames, hg])), fun c hcall => ?_,
    fun c hcond => ?_, fun t ht => ?_⟩
  · have hcalls := shape.calls_ok
    unfold aggregateCalls at hcalls
    split at hcalls
    · cases hcalls
    · obtain ⟨a, ha, hfield, hcount⟩ := (aggregateCallsFrom_ok hcalls c hcall).resolve_left (by simp)
      by_cases hempty : c.field = ""
      · exact .inl ⟨hempty, hcount hempty⟩
      · have hmem : c.field ∈ aggregateFieldNames input := by
          simp only [aggregateFieldNames, mem_append, mem_filter, mem_map]
          exact .inr ⟨⟨a, ha, hfield.symm⟩, by simpa using hempty⟩
        have hpath : pathOf plan.res.entity c.field = none := by
          rw [hfield]
          exact Option.isNone_iff_eq_none.mp (planned.own a ha)
        refine .inr (((hchecked _ hmem).resolve_right ?_).exposed_columnOf hc he)
        rw [hpath]
        simp
  · rw [Related.renamed, conditions_mapConditions] at hcond
    obtain ⟨c', hc', rfl⟩ := mem_map.mp hcond
    exact shape.field_toIR (shape.having_fields _ (mem_fields.mpr ⟨c', hc', rfl⟩))
  · obtain ⟨f, hf, hfield⟩ := aggregateTerms_ok shape.terms_ok t ht
    rw [hfield]
    exact shape.field_toIR hf

end Aggregates

/-- The columns in which the databases' tables of an entity agree: those it exposes, those
its row filter names and those whose names read as related fields. -/
def Kept (f : RowFilter) (column : String) : Prop :=
  Exposed f.1 column ∨ column ∈ fields f.2 ∨ (pathOf f.1 column).isSome

/-- The databases differ in an entity's table only in columns it does not expose and its row
filter, which is of the table's columns, does not name. -/
def DifferHidden (db₁ db₂ : DB) (f : RowFilter) : Prop :=
  AgreeAt db₁ db₂ f.1.ref.name (Kept f) ∧ hasExists f.2 = false ∧
    ∀ t, db₁ f.1.ref.name = some t → ∀ c ∈ fields f.2, c ∈ t.cols

variable {p : Predicate} {db₁ db₂ : DB} {S : String → Prop}

lemma reads_andPreds {q : Predicate} (hp : Reads db₁ db₂ S p)
    (hq : Reads db₁ db₂ S q) : Reads db₁ db₂ S (andPreds p q) := by
  unfold andPreds
  split
  · exact hq
  split
  · exact hp
  · refine .and fun r hr => ?_
    rcases mem_cons.mp hr with rfl | hr
    · exact hp
    · exact mem_singleton.mp hr ▸ hq

lemma reads_of_plain {F : String → Prop} (h : Plain F p) (hFS : ∀ c, F c → S c) :
    Reads db₁ db₂ S p := reads_of_each (h.mono (fun _ hc => hFS _ hc) fun _ _ _ => False.elim)

lemma reads_rowFilter (hplain : hasExists p = false)
    (hS : ∀ c ∈ fields p, S c) : Reads db₁ db₂ S p := by
  have h : Plain (· ∈ fields p) p := each_of_hasExists hplain fun c hc => mem_fields.mpr ⟨c, hc, rfl⟩
  exact reads_of_plain h hS

variable {x : Expr}

section Evaluation
variable {tc : Context} (hc : Configured tc.registry) {e : Entity} (he : e ∈ tc.registry.entities) {filter : Predicate}
  {targets : List RowFilter} {db₁ db₂ : DB} (hdiffer : ∀ f ∈ (e, filter) :: targets, DifferHidden db₁ db₂ f)

def Agreed (tc : Context) (e : Entity) (filter : Predicate) (column : String) : Prop :=
  Names tc e column ∨ column ∈ fields filter

lemma agreed_of_exposed (h : Exposed e c) : Agreed tc e filter c := .inl (.inl h)

include hdiffer in
lemma reads_of_compares (h : Compares tc targets e p) : Reads db₁ db₂ (Agreed tc e filter) p := by
  refine reads_of_each (h.mono (fun c hc => .inl hc) ?_)
  rintro r on p ⟨relation, target, inner, rowFilter, -, -, rfl, rfl, hmem, hon, hinner⟩
  obtain ⟨htable, hplain, -⟩ := hdiffer _ (mem_cons_of_mem _ hmem)
  refine .ex htable (fun j hj => agreed_of_exposed (hon j hj).1) (fun j hj => .inl (hon j hj).2) ?_
  exact reads_andPreds (reads_of_plain hinner fun c hc => .inl hc) (reads_rowFilter hplain fun c hc => .inr (.inl hc))

lemma joinRows_cols {left right out : Relation} {aliasName : String} {on : List JoinPair}
    (h : joinRows left right aliasName on p = .ok out) (hc : c ∈ left.cols) : c ∈ out.cols := by
  obtain ⟨rows, -, h⟩ := bind_eq_ok.mp h
  rw [pure_eq_ok, Except.ok.injEq] at h
  rw [← h]
  exact mem_append_left _ hc

include hc he hdiffer in
lemma wrap_agree {joins : List JoinSpec} (hjoins : ∀ j ∈ joins, JoinCompares tc targets e j) :
    Except.Both (Agree (Agreed tc e filter)) (eval db₁ (wrap joins (.scan e.ref "")))
      (eval db₂ (wrap joins (.scan e.ref ""))) := by
  -- Along the joins the columns of the row filter stay the entity's own.
  have hchain : ∀ (js : List JoinSpec) (x : Expr), (∀ j ∈ js, JoinCompares tc targets e j) →
      Except.Both (fun r₁ r₂ => Agree (Agreed tc e filter) r₁ r₂ ∧ ∀ c ∈ fields filter, c ∈ r₁.cols)
        (eval db₁ x) (eval db₂ x) →
      Except.Both (Agree (Agreed tc e filter)) (eval db₁ (wrap js x)) (eval db₂ (wrap js x)) := by
    intro js
    induction js with
    | nil => exact fun x _ hx => hx.mono fun _ _ hr => hr.1
    | cons j js ih =>
      intro x hjs hx
      refine ih _ (fun j hj => hjs j (mem_cons_of_mem _ hj)) ?_
      rw [eval, eval]
      refine hx.bind fun l₁ l₂ hl => ?_
      obtain ⟨hagree, hown⟩ := hl
      obtain ⟨relation, target, hrelation, htarget, hright, hmem, hon⟩ := hjs j (by simp)
      obtain ⟨htable, hplain, -⟩ := hdiffer _ (mem_cons_of_mem _ hmem)
      rw [hright]
      refine (scan_agree htable).bind fun s₁ s₂ hs => ?_
      -- A joined name the evaluations agree in is of a column the target exposes.
      have hnames : ∀ d, joinName j.aliasName d ∉ l₁.cols → Agreed tc e filter (joinName j.aliasName d) →
          Kept (target.entity, j.rightPred) d := by
        rintro d hfresh ((hexp | ⟨r, d', t, hpath, ht, hexp⟩) | hfilter)
        · have hnone := hexp.usable.pathOf_eq_none hc he
          rw [pathOf_joinName hc he hrelation] at hnone
          cases hnone
        · rw [pathOf_joinName hc he hrelation] at hpath
          obtain ⟨rfl, rfl⟩ := Prod.mk.inj (Option.some.inj hpath)
          rw [htarget] at ht
          obtain rfl := Option.some.inj ht
          exact .inl hexp
        · exact (hfresh (hown _ hfilter)).elim
      refine (joinRows_agree hagree hs (fun p hp => agreed_of_exposed (hon p hp).1) (fun p hp => .inl (hon p hp).2)
        (reads_rowFilter hplain fun _ hf => .inr (.inl hf)) hnames).and_left fun out hout c hcol => ?_
      exact joinRows_cols hout (hown c hcol)
  obtain ⟨htable, -, hcols⟩ := hdiffer (e, filter) (by simp)
  refine hchain joins _ hjoins (((scan_agree htable).mono fun r₁ r₂ hr => ?_).and_left fun r hr => ?_)
  · refine ⟨hr.cols, hr.hidden, hr.rows.imp fun a b hab => ⟨hab.left, hab.right, fun c hagreed => hab.same c ?_⟩⟩
    rcases hagreed with (hexp | ⟨r, d, t, hpath, -, -⟩) | hfilter
    · exact .inl hexp
    · exact .inr (.inr (by rw [hpath]; rfl))
    · exact .inr (.inl hfilter)
  · unfold scan at hr
    split at hr
    · rename_i t ht
      cases hr
      exact hcols t ht
    · cases hr

include hc he hdiffer in
lemma selected_agree {joins : List JoinSpec} {full : Predicate} (hjoins : ∀ j ∈ joins, JoinCompares tc targets e j)
    (hfull : Reads db₁ db₂ (Agreed tc e filter) full) :
    Except.Both (Agree (Agreed tc e filter)) (eval db₁ (selected (wrap joins (.scan e.ref "")) full))
      (eval db₂ (selected (wrap joins (.scan e.ref "")) full)) := by
  have hwrap := wrap_agree hc he hdiffer hjoins
  unfold selected
  split
  · exact hwrap
  · rw [eval, eval]
    exact hwrap.bind fun r₁ r₂ hr => selectRows_agree hr hfull

lemma sortedBy_agree {terms : List OrderTerm}
    (hx : Except.Both (Agree S) (eval db₁ x) (eval db₂ x)) (hterms : ∀ t ∈ terms, S t.field) :
    Except.Both (Agree S) (eval db₁ (sortedBy x terms)) (eval db₂ (sortedBy x terms)) := by
  unfold sortedBy
  split
  · exact hx
  · rw [eval, eval]
    exact hx.bind fun r₁ r₂ hr => sortRows_agree hr hterms

lemma limited_rowWise {R : Row → Row → Prop} {limit offset : Int}
    (hx : Except.Both (RowWise R) (eval db₁ x) (eval db₂ x)) :
    Except.Both (RowWise R) (eval db₁ (limited x limit offset)) (eval db₂ (limited x limit offset)) := by
  unfold limited
  split
  · rw [eval, eval]
    exact hx.bind fun r₁ r₂ hr => limitRows_rowWise hr limit offset
  · exact hx

end Evaluation

/-- The rows of a result are related when those evaluated are the same, or related and all columns
are the read's own. -/
lemma evalResult_rowWise {R : Row → Row → Prop}
    (hx : Except.Both (RowWise R) (eval db₁ x) (eval db₂ x)) (hown : ∀ r, eval db₁ x = .ok r → r.hidden = 0) :
    Except.Both (RowWise R) (evalResult db₁ x) (evalResult db₂ x) := by
  refine (hx.and_left hown).bind fun r₁ r₂ hr => .ok ?_
  have hhidden := hr.1.hidden
  rw [hr.2] at hhidden
  simpa [Relation.visible, hr.2, ← hhidden] using hr.1

lemma hidden_limited {db : DB} {limit offset : Int} (hx : ∀ r, eval db x = .ok r → r.hidden = 0) :
    ∀ r, eval db (limited x limit offset) = .ok r → r.hidden = 0 := by
  intro r hr
  unfold limited at hr
  split at hr
  · rw [eval] at hr
    obtain ⟨rel, hrel, hr⟩ := bind_eq_ok.mp hr
    unfold limitRows at hr
    split at hr
    · cases hr
    · cases hr
      exact hx rel hrel
  · exact hx r hr

lemma hidden_project {db : DB} {items : List ProjectItem} :
    ∀ r, eval db (.project x items) = .ok r → r.hidden = 0 := by
  intro r hr
  rw [eval] at hr
  obtain ⟨rel, -, hr⟩ := bind_eq_ok.mp hr
  obtain ⟨idx, -, hr⟩ := bind_eq_ok.mp hr
  cases hr
  rfl

lemma hidden_distinct {db : DB} : ∀ r, eval db (.distinct x) = .ok r → r.hidden = 0 := by
  intro r hr
  rw [eval] at hr
  obtain ⟨rel, -, hr⟩ := bind_eq_ok.mp hr
  obtain ⟨rows, -, hr⟩ := bind_eq_ok.mp hr
  cases hr
  rfl

def SameExposed (e : Entity) (fields : List String) (a b : Row) : Prop :=
  a.length = b.length ∧ ∀ i f, fields[i]? = some f → Exposed e (columnOf e f) → cell a i = cell b i

lemma sameExposed_of_itemsAgree {filter : Predicate} {fields : List String} {a b : Row}
    (h : ItemsAgree (Agreed tc e filter) (projectItems e fields) a b) : SameExposed e fields a b := by
  obtain ⟨ha, hb, hcells⟩ := h
  refine ⟨ha.trans hb.symm, fun i f hf hexp => hcells i ⟨columnOf e f, if columnOf e f = f then "" else f⟩ ?_ ?_⟩
  · simp [projectItems, hf]
  · exact agreed_of_exposed hexp

/-- On databases that differ in hidden columns a read gives the same rows, but for fields returned
that are not exposed. -/
def ReadIndependent (input : ReadInput) (plan : ReadPlan) : Prop :=
  ∀ db₁ db₂ : DB, (∀ f ∈ plan.rowFilters, DifferHidden db₁ db₂ f) →
    Except.Both (RowWise (SameExposed plan.res.entity plan.grant.fields))
      (evalResult db₁ (buildReadExpression input plan)) (evalResult db₂ (buildReadExpression input plan))

def AggregateIndependent (plan : AggregatePlan) (expr : Expr) : Prop :=
  ∀ db₁ db₂ : DB, (∀ f ∈ plan.rowFilters, DifferHidden db₁ db₂ f) → evalResult db₁ expr = evalResult db₂ expr

lemma readIndependent (hc : Configured tc.registry) {plan : ReadPlan}
    (he : plan.res.entity ∈ tc.registry.entities) (h : ReadCompares tc input plan) : ReadIndependent input plan := by
  intro db₁ db₂ hdiffer
  obtain ⟨-, hplain, -⟩ := hdiffer _ (mem_cons_self ..)
  have hfull : Reads db₁ db₂ (Agreed tc plan.res.entity plan.grant.rowFilter) plan.full :=
    reads_andPreds (reads_andPreds (reads_of_compares hdiffer h.pred) (reads_rowFilter hplain fun _ => .inr))
      (reads_of_plain h.keyset fun _ => .inl)
  have hsorted := sortedBy_agree (selected_agree hc he hdiffer h.joins hfull) fun t ht => .inl (h.order t ht)
  have hprojected := hsorted.bind fun r₁ r₂ hr => projectRows_agree (projectItems plan.res.entity plan.grant.fields) hr
  unfold buildReadExpression
  simp only
  split
  · -- A distinct read's rows are of exposed columns, so they are the same before and after.
    rename_i hdistinct
    have hitems : ∀ item ∈ projectItems plan.res.entity plan.grant.fields,
        Agreed tc plan.res.entity plan.grant.rowFilter item.field := by
      intro item hitem
      obtain ⟨f, hf, rfl⟩ := mem_map.mp hitem
      exact agreed_of_exposed (h.distinct hdistinct f hf)
    have hsame := hprojected.mono fun r₁ r₂ hr =>
      RowWise.eq ⟨hr.cols, hr.hidden, hr.rows.imp fun a b hab => hab.eq hitems⟩
    refine evalResult_rowWise (limited_rowWise ?_) (hidden_limited hidden_distinct)
    rw [eval, eval, eval, eval, hsame.eq]
    exact Except.Both.refl (fun r => ⟨rfl, rfl, forall₂_same.mpr fun _ _ => ⟨rfl, fun _ _ _ _ => rfl⟩⟩) _
  · refine evalResult_rowWise (limited_rowWise ?_) (hidden_limited hidden_project)
    rw [eval, eval]
    exact hprojected.mono fun r₁ r₂ hr => ⟨hr.cols, hr.hidden, hr.rows.imp fun a b hab => sameExposed_of_itemsAgree hab⟩

lemma aggregateIndependent (hc : Configured tc.registry) {input : AggregateInput}
    {plan : AggregatePlan} {expr : Expr} (he : plan.res.entity ∈ tc.registry.entities)
    {shape : AggregateShaped tc plan input expr} (h : AggregateCompares tc plan input expr shape) :
    AggregateIndependent plan expr := by
  intro db₁ db₂ hdiffer
  obtain ⟨-, hplain, -⟩ := hdiffer _ (mem_cons_self ..)
  have hfull : Reads db₁ db₂ (Agreed tc plan.res.entity plan.grant.rowFilter) plan.full :=
    reads_andPreds (reads_of_compares hdiffer h.pred) (reads_rowFilter hplain fun _ => .inr)
  have hselected := selected_agree hc he hdiffer h.joins hfull
  have hagg : ∀ x, x = .aggregate (selected (wrap plan.rel.joins (.scan plan.res.entity.ref "")) plan.full)
      (input.groupBy.map fun g => plan.rel.field (columnOf plan.res.entity g))
      (shape.calls.map fun c => { c with field := columnOf plan.res.entity c.field }) → eval db₁ x = eval db₂ x := by
    rintro _ rfl
    rw [eval, eval]
    refine Except.Both.eq (hselected.bind fun r₁ r₂ hr => ?_)
    rw [aggregateRows_agree hr]
    · exact Except.Both.refl (fun _ => rfl) _
    · intro g hg
      obtain ⟨g', hg', rfl⟩ := mem_map.mp hg
      exact .inl (h.groups g' hg')
    · intro c hcall
      obtain ⟨c', hc', rfl⟩ := mem_map.mp hcall
      rcases h.calls c' hc' with ⟨hempty, -⟩ | hexp
      · exact .inl (by rw [hempty]; rfl)
      · exact .inr (agreed_of_exposed hexp)
    · intro c hcall hfield
      obtain ⟨c', hc', rfl⟩ := mem_map.mp hcall
      rcases h.calls c' hc' with ⟨-, hcount⟩ | ⟨a, -, hname, -⟩
      · exact hcount
      · exact (a.named (hname.trans hfield)).elim
  have hhaving : ∀ p, hasExists p = false → ∀ x, eval db₁ x = eval db₂ x → eval db₁ (.having x p) = eval db₂ (.having x p) := by
    intro p hp x hx
    rw [eval, eval, hx]
    simp only [selectRows_noExists db₁ db₂ hp]
  have hsorted : ∀ x terms, eval db₁ x = eval db₂ x → eval db₁ (sortedBy x terms) = eval db₂ (sortedBy x terms) := by
    intro x terms hx
    unfold sortedBy
    split
    · exact hx
    · rw [eval, eval, hx]
  have hlimited : ∀ x limit offset, eval db₁ x = eval db₂ x →
      eval db₁ (limited x limit offset) = eval db₂ (limited x limit offset) := by
    intro x limit offset hx
    unfold limited
    split
    · rw [eval, eval, hx]
    · exact hx
  unfold evalResult
  rw [shape.expr_eq]
  simp only
  rw [hlimited _ _ _ (hsorted _ _ ?_)]
  split
  · exact hagg _ rfl
  · refine hhaving _ ?_ _ (hagg _ rfl)
    rw [Related.renamed, hasExists_mapConditions, shape.having_plain]

def ReturnsVisible (tc : Context) : Prop :=
  ∀ req dec res, tc.authorize req = .ok dec → dec.allowed = true → req.action = .read →
    tc.registry.resolve req.entity = some res → ∀ f ∈ dec.fields, ∃ a ∈ res.attributes, a.hasName f

lemma authorize_returnsVisible {a : Rbac.GrantAuthorizer} {memo : Rbac.GrantAuthorizer.Memo a}
    (hres : a.registry.resolve req.entity = some res) (hread : req.action = .read)
    (h : (Rbac.authorize a memo req).1.allowed = true) :
    ∀ f ∈ (Rbac.authorize a memo req).1.fields, ∃ x ∈ res.attributes, x.hasName f := by
  rw [Rbac.authorize_fst memo hres] at h ⊢
  obtain ⟨projected, serving, hproject, hfields, -⟩ := Rbac.decision_allowed h
  rw [hfields]
  intro f hf
  have hmem := ((Rbac.project_ok hproject).2 hread).2 f hf
  by_cases hreq : req.fields = []
  · simp only [Rbac.projectFields, hreq, if_true] at hmem
    obtain ⟨x, hx, rfl⟩ := mem_map.mp hmem
    exact ⟨x, hx, x.hasName_name⟩
  · exact ((Rbac.mem_projectFields hreq).mp hmem).2

lemma orderRead_request {req' : Rbac.Request}
    {order : ReadOrder} (h : orderRead tc res input req rel = .ok (order, req')) :
    req'.entity = req.entity ∧ req'.action = req.action := by
  unfold orderRead at h
  split at h
  · cases h
  · obtain ⟨planned, -, h⟩ := bind_eq_ok.mp h
    simp only at h
    split at h <;> split at h <;> cases h <;> exact ⟨rfl, rfl⟩

lemma authorizeRequest_ok {dec : Rbac.Decision}
    (h : authorizeRequest tc req = .ok dec) : tc.authorize req = .ok dec ∧ dec.allowed = true := by
  unfold authorizeRequest at h
  split at h
  · cases h
  · rename_i dec' hdec
    split at h
    · cases h
    rename_i hallowed
    split at h
    · cases h
    split at h
    · split at h
      · cases h
      · cases h
        exact ⟨hdec, by simpa using hallowed⟩
    · cases h
      exact ⟨hdec, by simpa using hallowed⟩

lemma returned_exposed_or_masked (hc : Configured tc.registry) (hv : ReturnsVisible tc)
    {plan : ReadPlan} (planned : ReadPlanned tc input plan) :
    ∀ f ∈ plan.grant.fields, Exposed plan.res.entity (columnOf plan.res.entity f) ∨
      ∃ a ∈ plan.res.entity.visible, a.name = columnOf plan.res.entity f ∧ a.mask ≠ "" := by
  intro f hf
  obtain ⟨g, hgrant, hg⟩ := bind_eq_ok.mp planned.grant_ok
  obtain ⟨_, -, hg⟩ := bind_eq_ok.mp hg
  rw [pure_eq_ok, Except.ok.injEq] at hg
  subst hg
  obtain ⟨hdec, hallowed⟩ := authorizeRequest_ok hgrant
  obtain ⟨hentity, haction⟩ := orderRead_request planned.order_ok
  have hres := (planEntity_ok planned.entity_ok).1
  obtain ⟨a, ha, hname⟩ := hv planned.req _ plan.res hdec hallowed haction (by rw [hentity]; exact hres) f hf
  rw [plan.res.shown] at ha
  have hcol : columnOf plan.res.entity f = a.name := by
    rw [columnOf, attributeByName_eq hc (Registry.resolve_mem hres) (mem_attributes_of_visible ha) hname]
  by_cases hmask : a.mask = ""
  · exact .inl ⟨a, ha, hcol.symm, hmask⟩
  · exact .inr ⟨a, ha, hcol.symm, hmask⟩

def staff (keyHidden : Bool) : Entity :=
  { name := "staff", source := "staff", keys := [{ columns := ["id"], primary := true }],
    attributes := [{ name := "id", excluded := keyHidden, named := Attribute.named_id }, { name := "team" },
      { name := "salary", mask := "null" }] }

def staffAuthorizer (keyHidden : Bool) : Rbac.GrantAuthorizer :=
  { registry := ⟨[staff keyHidden], by simp [staff], by simp⟩, lower := Char.toLower,
    policy := { principals := [("clerk", { grants := [("staff", [{ id := "all", actions := [.read] }])] })] } }

def staffContext (keyHidden : Bool) : Context :=
  { registry := (staffAuthorizer keyHidden).registry, role := "clerk", parsers := ⟨fun _ => none, fun _ => none⟩,
    authorize := fun req => .ok (Rbac.authorize (staffAuthorizer keyHidden) {} req).1 }

def staffByTeam : ReadInput := { entity := "staff", fields := ["team", "salary"], orderBy := [⟨"team", "asc"⟩] }

lemma staffContext_configured (keyHidden : Bool) : Configured (staffContext keyHidden).registry := by
  refine ⟨?_, ?_, ?_, ?_⟩
  · intro e he a ha b hb f hfa hfb
    obtain rfl := mem_singleton.mp he
    simp only [staff, mem_cons, not_mem_nil, or_false] at ha hb
    have hname : a.name = b.name := by
      rcases ha with rfl | rfl | rfl <;> rcases hb with rfl | rfl | rfl <;>
        simp only [Attribute.hasName, bne_self_eq_false, Bool.false_and, Bool.or_false, beq_iff_eq] at hfa hfb <;>
        exact hfa.trans hfb.symm
    rcases ha with rfl | rfl | rfl <;> rcases hb with rfl | rfl | rfl <;> first | rfl | simp at hname
  all_goals
    intro e he rel hrel
    obtain rfl := mem_singleton.mp he
    simp [staff] at hrel

lemma staffContext_returnsVisible (keyHidden : Bool) : ReturnsVisible (staffContext keyHidden) := by
  intro req dec res hdec hallowed hread hres
  obtain rfl := Except.ok.inj hdec
  exact authorize_returnsVisible hres hread hallowed

def staffTable (ids : Value × Value) : Table :=
  ⟨["id", "team", "salary"], [[ids.1, .str "ops", .num 10], [ids.2, .str "ops", .num 20]], by simp⟩

def staffDB (ids : Value × Value) : DB := fun name => if name = "staff" then some (staffTable ids) else none

lemma differHidden_staffDB : DifferHidden (staffDB (.num 1, .num 2)) (staffDB (.num 2, .num 1)) (staff true, .nil) := by
  refine ⟨.inr ⟨staffTable (.num 1, .num 2), staffTable (.num 2, .num 1), rfl, rfl, rfl, ?_⟩, rfl, ?_⟩
  · refine .cons ⟨rfl, rfl, fun c hc => ?_⟩ (.cons ⟨rfl, rfl, fun c hc => ?_⟩ .nil)
    all_goals
      have hne : c ≠ "id" := by
        rintro rfl
        rcases hc with ⟨a, ha, hname, -⟩ | hfilter | hpath
        · simp only [staff, Entity.visible, Bool.not_true, filter_cons, Bool.false_eq_true, if_false, Bool.not_false,
            if_true, filter_nil, mem_cons, not_mem_nil, or_false] at ha
          rcases ha with rfl | rfl <;> simp at hname
        · simp [fields, conditions, firstOccurrences] at hfilter
        · simp [pathOf, cutDot] at hpath
      by_cases hteam : "team" = c
      · simp [rowEnv, staffTable, findIdx?_cons, hne.symm, hteam, cell]
      · by_cases hsalary : "salary" = c <;> simp [rowEnv, staffTable, findIdx?_cons, hne.symm, hteam, hsalary, cell]
  · simp [fields, conditions, firstOccurrences]

end SqlMcpServer.Tool
