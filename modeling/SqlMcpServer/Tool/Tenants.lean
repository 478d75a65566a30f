import SqlMcpServer.Tool.Cascade
import SqlMcpServer.Tool.HiddenRows
import SqlMcpServer.Tool.MaskedColumns

namespace SqlMcpServer.Tool

open List
open Except (bind_eq_ok)
open Relalg Interp

lemma resolveAll_filters {tc : Context} {e : Entity} {ps : List Predicate} {rs : Resolution (List Predicate)}
    (h : resolveAll tc e ps = .ok rs) {f : RowFilter} (hf : f ∈ rs.filters) :
    ∃ p ∈ ps, ∃ res, resolveExists tc e p = .ok res ∧ f ∈ res.filters := by
  induction ps generalizing rs with
  | nil =>
    rw [resolveAll] at h
    cases h
    cases hf
  | cons p ps ih =>
    rw [resolveAll] at h
    obtain ⟨r, hr, h⟩ := bind_eq_ok.mp h
    obtain ⟨rest, hrest, h⟩ := bind_eq_ok.mp h
    cases h
    rcases mem_append.mp hf with hf | hf
    · exact ⟨p, by simp, r, hr, hf⟩
    · obtain ⟨q, hq, hres⟩ := ih hrest hf
      exact ⟨q, mem_cons_of_mem _ hq, hres⟩

lemma orderRead_subject {tc : Context} {res : Resolved} {input : ReadInput} {req req' : Rbac.Request} {rel : Related}
    {order : ReadOrder} (h : orderRead tc res input req rel = .ok (order, req')) : req'.subject = req.subject := by
  unfold orderRead at h
  split at h
  · cases h
  · obtain ⟨planned, -, h⟩ := bind_eq_ok.mp h
    simp only at h
    split at h <;> split at h <;> cases h <;> rfl

section Filters
variable {tc : Context} {e : Entity} {P : RowFilter → Prop} (hP : ∀ {req : Rbac.Request} {res : Resolved}
  {g : Rbac.Decision}, req.subject = tc.subject → tc.registry.resolve req.entity = some res →
    authorizeRequest tc req = .ok g → P (res.entity, g.rowFilter))
include hP

lemma relatedTarget_filter {r : Relationship} {fields : List String} {target : Resolved} {g : Rbac.Decision}
    (h : relatedTarget tc e r fields = .ok (target, g)) : P (target.entity, g.rowFilter) := by
  have hmem := Registry.resolve_mem (relatedTarget_ok h).1
  obtain ⟨t, -, h⟩ := bind_eq_ok.mp h
  obtain ⟨_, -, h⟩ := bind_eq_ok.mp h
  obtain ⟨_, -, h⟩ := bind_eq_ok.mp h
  obtain ⟨g', hg, h⟩ := bind_eq_ok.mp h
  cases h
  exact @hP _ target.entity.resolved _ rfl (by rw [Registry.resolve, tc.registry.byName_of_mem hmem]) hg

lemma resolveExists_filters {p : Predicate} {res : Resolution Predicate} (h : resolveExists tc e p = .ok res) :
    ∀ f ∈ res.filters, P f := by
  induction p using Predicate.ind generalizing res with
  | nil | cond c =>
    simp only [resolveExists, Except.ok.injEq] at h
    simp [← h]
  | and ps ih | or ps ih =>
    rw [resolveExists] at h
    obtain ⟨rs, hrs, h⟩ := bind_eq_ok.mp h
    cases h
    intro f hf
    obtain ⟨p, hp, r, hr, hf⟩ := resolveAll_filters hrs hf
    exact ih p hp hr f hf
  | not p ih =>
    rw [resolveExists] at h
    obtain ⟨r, hr, h⟩ := bind_eq_ok.mp h
    cases h
    exact @ih r hr
  | ex ref on p =>
    rw [resolveExists, resolveOne] at h
    split at h
    · cases h
    obtain ⟨_, -, h⟩ := bind_eq_ok.mp h
    obtain ⟨_, -, h⟩ := bind_eq_ok.mp h
    obtain ⟨⟨target, g⟩, htarget, h⟩ := bind_eq_ok.mp h
    obtain ⟨inner, -, h⟩ := bind_eq_ok.mp h
    cases h
    simpa using relatedTarget_filter hP htarget

lemma relate_filters {pred : Predicate} {paths : List String} {rs : Relations} (h : relate tc e pred paths = .ok rs) :
    ∀ f ∈ rs.filters, P f := by
  obtain ⟨rel, hrel, h⟩ := bind_eq_ok.mp h
  obtain ⟨res, hres, h⟩ := bind_eq_ok.mp h
  cases h
  intro f hf
  rcases mem_append.mp hf with hf | hf
  · obtain ⟨steps, hsteps, -, rfl⟩ := planJoinsFrom_ok hrel
    obtain ⟨s, hs, rfl⟩ := mem_map.mp (by simpa [Related.add] using hf)
    exact relatedTarget_filter hP (hsteps s hs).authorized
  · exact resolveExists_filters hP hres f hf

lemma readPlan_filters {input : ReadInput} {plan : ReadPlan} (h : ReadPlanned tc input plan) :
    ∀ f ∈ plan.rowFilters, P f := by
  intro f hf
  rcases mem_cons.mp hf with rfl | hf
  · obtain ⟨g, hgrant, hg⟩ := bind_eq_ok.mp h.grant_ok
    obtain ⟨_, -, hg⟩ := bind_eq_ok.mp hg
    cases hg
    refine hP (orderRead_subject h.order_ok) ?_ hgrant
    rw [(orderRead_request h.order_ok).1]
    exact (planEntity_ok h.entity_ok).1
  · exact relate_filters hP h.relate_ok f (h.targets_eq ▸ hf)

lemma aggregatePlan_filters {input : AggregateInput} {plan : AggregatePlan} (h : AggregatePlanned tc input plan) :
    ∀ f ∈ plan.rowFilters, P f := by
  intro f hf
  rcases mem_cons.mp hf with rfl | hf
  · exact hP rfl (planEntity_ok h.entity_ok).1 h.grant_ok
  · exact relate_filters hP h.relate_ok f (h.targets_eq ▸ hf)

end Filters

/-- The filter compares columns of the entity's table alone. -/
def OwnColumns (db : DB) (f : RowFilter) : Prop :=
  hasExists f.2 = false ∧ ∀ t, db f.1.ref.name = some t → ∀ c ∈ conditions f.2, c.field ∈ t.cols

/-- The databases hold the same rows of the subject's tenant. -/
def SameTenant (reg : Registry) (s : Rbac.Subject) (db₁ db₂ : DB) : Prop :=
  ∀ e ∈ reg.entities, AgreeOn db₁ db₂ (e, Rbac.resolveSubject e.tenantPolicy s)

/-- An authorized filter admits rows of the tenant alone. -/
lemma SameTenant.agreeOn {tc : Context} {a : Rbac.GrantAuthorizer} {memo : Rbac.GrantAuthorizer.Memo a} {db₁ db₂ : DB}
    (hsame : SameTenant a.registry tc.subject db₁ db₂) {req : Rbac.Request} {res : Resolved} {g : Rbac.Decision}
    (hsubject : req.subject = tc.subject) (hres : a.registry.resolve req.entity = some res)
    (h : authorizeRequest (byGrants tc a memo) req = .ok g) (hown : OwnColumns db₁ (res.entity, g.rowFilter)) :
    AgreeOn db₁ db₂ (res.entity, g.rowFilter) := by
  obtain ⟨hdec, hallowed⟩ := authorizeRequest_ok h
  cases hdec
  obtain ⟨t₁, t₂, h₁, h₂, hcols, -, hrows⟩ := hsame _ (Registry.resolve_mem hres)
  refine ⟨t₁, t₂, h₁, h₂, hcols, hown.2 t₁ h₁, ?_⟩
  have hfilter : ∀ rows : List Row, rows.filter (admits (Rbac.authorize a memo req).1.rowFilter t₁.cols) =
      (rows.filter (admits (Rbac.resolveSubject res.entity.tenantPolicy tc.subject) t₁.cols)).filter
        (admits (Rbac.authorize a memo req).1.rowFilter t₁.cols) := by
    intro rows
    rw [filter_filter]
    refine filter_congr fun row _ => ?_
    rw [Bool.eq_iff_iff]
    simpa [admits] using fun hrow => hsubject ▸ (Rbac.authorize_admits memo hres hallowed hrow).1
  exact (hfilter _).trans ((congrArg _ hrows).trans (hfilter _).symm)

/-- Tenants are isolated: databases with the same rows of the caller's tenant give a read or an
aggregate the same result, whatever relationships it goes through. -/
theorem tenants_isolated (tc : Context) (a : Rbac.GrantAuthorizer) (memo : Rbac.GrantAuthorizer.Memo a) (db₁ db₂ : DB)
    (hsame : SameTenant a.registry tc.subject db₁ db₂) :
    (∀ (input : ReadInput) (plan : ReadPlan) (r₁ r₂ : Relation), prepareReadPlan (byGrants tc a memo) input = .ok plan →
      (∀ f ∈ plan.rowFilters, OwnColumns db₁ f) → evalResult db₁ (buildReadExpression input plan) = .ok r₁ →
      evalResult db₂ (buildReadExpression input plan) = .ok r₂ → r₁ = r₂) ∧
    ∀ (input : AggregateInput) (plan : AggregatePlan) (expr : Expr) (r₁ r₂ : Relation),
      prepareAggregate (byGrants tc a memo) input = .ok plan →
      aggregateExpression (byGrants tc a memo) plan input = .ok expr → (∀ f ∈ plan.rowFilters, OwnColumns db₁ f) →
      evalResult db₁ expr = .ok r₁ → evalResult db₂ expr = .ok r₂ → r₁ = r₂ := by
  constructor
  · intro input plan r₁ r₂ hplan hown h₁ h₂
    obtain ⟨planned⟩ := prepareReadPlan_ok hplan
    have hagree := readPlan_filters (P := fun f => OwnColumns db₁ f → AgreeOn db₁ db₂ f) hsame.agreeOn planned
    exact (sameOn_read planned (fun f hf => hagree f hf (hown f hf)) fun f hf => (hown f hf).1).evalResult h₁ h₂
  · intro input plan expr r₁ r₂ hplan hexpr hown h₁ h₂
    obtain ⟨planned⟩ := prepareAggregate_ok hplan
    obtain ⟨shaped⟩ := aggregateExpression_ok hexpr
    have hagree := aggregatePlan_filters (P := fun f => OwnColumns db₁ f → AgreeOn db₁ db₂ f) hsame.agreeOn planned
    exact (sameOn_aggregate planned shaped (fun f hf => hagree f hf (hown f hf)) fun f hf =>
      (hown f hf).1).evalResult h₁ h₂

/-- The invoices under a tenant policy, with a clerk who may read them. -/
def tenantInvoices : Rbac.GrantAuthorizer where
  registry := ⟨[{ invoices with tenantPolicy := ownTenant }], by simp [invoices], by simp⟩
  policy := { principals := [("clerk", { grants := [("invoices", [{ id := "all", actions := [.read] }])] })] }
  lower := id

theorem tenants_isolated_invoices :
    SameTenant tenantInvoices.registry (fun _ => .null) (invoicesDB (.num 30)) (invoicesDB (.num 1)) ∧
    ∃ plan, prepareReadPlan (byGrants invoicesContext tenantInvoices {}) invoicesOver = .ok plan ∧
      ∀ r₁ r₂, evalResult (invoicesDB (.num 30)) (buildReadExpression invoicesOver plan) = .ok r₁ →
        evalResult (invoicesDB (.num 1)) (buildReadExpression invoicesOver plan) = .ok r₂ → r₁ = r₂ := by
  have hsame : SameTenant tenantInvoices.registry (fun _ => .null) (invoicesDB (.num 30)) (invoicesDB (.num 1)) := by
    intro e he
    rw [mem_singleton.mp he]
    exact agreeOn_invoicesDB _ _
  have hplans : ∃ plan, prepareReadPlan (byGrants invoicesContext tenantInvoices {}) invoicesOver = .ok plan := ⟨_, rfl⟩
  obtain ⟨plan, hplan⟩ := hplans
  refine ⟨hsame, plan, hplan, fun r₁ r₂ => (tenants_isolated invoicesContext tenantInvoices {} _ _ hsame).1 invoicesOver
    plan r₁ r₂ hplan ?_⟩
  cases hplan
  intro f hf
  rw [mem_singleton.mp hf]
  refine ⟨rfl, fun t ht => ?_⟩
  cases ht
  decide

end SqlMcpServer.Tool
