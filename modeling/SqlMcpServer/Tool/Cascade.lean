import SqlMcpServer.Lib.Search
import SqlMcpServer.Rbac.Covering
import SqlMcpServer.Tool.Related

/-!
# Cascading writes

`cascade.go`: a delete, or an update of referenced columns, makes the database write the rows
that reference them.
-/

namespace SqlMcpServer.Tool

open List
open Relalg

structure CascadedWrite where
  entity : Entity
  action : Action
  columns : List String

/-- What one foreign key does to its referencing relation when rows of the referenced one
change. -/
structure CascadeEffect where
  cascade : Cascade
  action : Action
  columns : List String := []

/-- The referential writes a delete of the entity's rows, or an update of its columns,
triggers directly. -/
def cascadeEffects (e : Entity) (action : Action) (updated : List String) : List CascadeEffect :=
  e.cascades.filterMap fun c =>
    if action = .update ∧ !(c.columns.any fun col => updated.contains col) then none
    else
      let rule := if action = .update then c.onUpdate else c.onDelete
      if !rule.writes then none
      else if action = .delete ∧ rule = .cascade then some { cascade := c, action := .delete }
      else some { cascade := c, action := .update, columns := c.foreignColumns }

inductive CascadeError where
  /-- `the write cascades to %s, which no entity exposes` -/
  | notExposed (table : String)
  /-- `the write cascades to %q, which is not registered` -/
  | notRegistered (entity : String)
  /-- `the write cascades to %q, which needs %s permission there without a row scope` -/
  | notCovered (entity : String) (action : Action)
  -- the authorizer's own error
  | authorizer (message : String)
deriving DecidableEq, Repr

/-- `string(action)`: the action's number as a character. -/
def actionText (a : Action) : String :=
  match a with
  | .read => "\x00"
  | .create => "\x01"
  | .update => "\x02"
  | .delete => "\x03"
  | .execute => "\x04"
  | .aggregate => "\x05"

namespace CascadedWrite

def key (w : CascadedWrite) : String :=
  w.entity.name ++ "\x00" ++ actionText w.action ++ "\x00" ++ "\x00".intercalate w.columns

def effects (w : CascadedWrite) : List CascadeEffect := cascadeEffects w.entity w.action w.columns

end CascadedWrite

def coverEffect (tc : Context) (effect : CascadeEffect) : Except CascadeError CascadedWrite :=
  let c := effect.cascade
  if c.entity = "" then .error (.notExposed c.table)
  else
    match tc.registry.resolve c.entity with
    | none => .error (.notRegistered c.entity)
    | some child =>
      match tc.authorize { role := tc.role, subject := tc.subject, entity := c.entity, action := effect.action,
                           writeFields := effect.columns } with
      | .error message => .error (.authorizer message)
      | .ok dec =>
        if !dec.allowed ∨ !dec.rowFilter.isNil then .error (.notCovered c.entity effect.action)
        else .ok ⟨child.entity, effect.action, effect.columns⟩

def walkCascades (tc : Context) (fuel : Nat) (w : CascadedWrite) (seen : List String) :
    Option (Except CascadeError (List String)) :=
  Search.walk CascadedWrite.key (·.entity.allowCascade) (fun w => w.effects.map (coverEffect tc)) fuel w seen

def columnNames (e : Entity) (fields : List String) : List String :=
  fields.map fun f =>
    match e.attributeByName f with
    | some a => a.name
    | none => f

/-- The writes a walk may meet: of every entity, a delete or an update of some foreign key's
columns. -/
def cascadedWrites (reg : Registry) (w : CascadedWrite) : List CascadedWrite :=
  w :: reg.entities.flatMap fun f =>
    ⟨f, .delete, []⟩ :: ((w.entity :: reg.entities).flatMap (·.cascades)).map fun c => ⟨f, .update, c.foreignColumns⟩

/-- The writes foreign keys cascade from a delete, or an update of the fields `updated`,
are covered. No result would mean a walk that does not end. -/
def checkCascades (tc : Context) (e : Entity) (action : Action) (updated : List String) :
    Option (Except CascadeError Unit) :=
  let w : CascadedWrite := ⟨e, action, columnNames e updated⟩
  (walkCascades tc ((cascadedWrites tc.registry w).length + 1) w []).map fun r => r.map fun _ => ()

/-- A foreign key writes its referencing rows on a delete or an update of columns: it deletes
them, or rewrites its own columns. -/
inductive Fires (e : Entity) : Action → List String → Cascade → Action → List String → Prop where
  | deleted {updated : List String} {c : Cascade} (hc : c ∈ e.cascades) (hrule : c.onDelete = .cascade) :
      Fires e .delete updated c .delete []
  | unset {updated : List String} {c : Cascade} (hc : c ∈ e.cascades)
      (hrule : c.onDelete = .setNull ∨ c.onDelete = .setDefault) : Fires e .delete updated c .update c.foreignColumns
  | rewritten {updated : List String} {c : Cascade} {col : String} (hc : c ∈ e.cascades) (hcol : col ∈ c.columns)
      (hupdated : col ∈ updated) (hrule : c.onUpdate = .cascade ∨ c.onUpdate = .setNull ∨ c.onUpdate = .setDefault) :
      Fires e .update updated c .update c.foreignColumns

def Cascades (reg : Registry) (w w' : CascadedWrite) : Prop :=
  w.entity.allowCascade = false ∧ ∃ c f, Fires w.entity w.action w.columns c w'.action w'.columns ∧
    reg.resolve c.entity = some f ∧ f.entity = w'.entity

abbrev CascadeChain (reg : Registry) : CascadedWrite → CascadedWrite → Prop := Relation.ReflTransGen (Cascades reg)

/-- The writes chains from `w` reach that are remembered by one text trigger the same. -/
def KeysTell (reg : Registry) (w : CascadedWrite) : Prop :=
  ∀ w₁ w₂, CascadeChain reg w w₁ → CascadeChain reg w w₂ → w₁.key = w₂.key → w₁.effects = w₂.effects

variable {e : Entity} {action : Action} {updated : List String}

lemma Fires.mem_cascadeEffects {action' : Action} {columns : List String} {c : Cascade}
    (h : Fires e action updated c action' columns) :
    ({ cascade := c, action := action', columns } : CascadeEffect) ∈ cascadeEffects e action updated := by
  unfold cascadeEffects
  rw [mem_filterMap]
  cases h with
  | deleted hc hrule =>
    refine ⟨c, hc, ?_⟩
    simp [hrule, ReferentialAction.writes]
  | unset hc hrule =>
    refine ⟨c, hc, ?_⟩
    rcases hrule with hrule | hrule <;> simp [hrule, ReferentialAction.writes]
  | rewritten hc hcol hupdated hrule =>
    refine ⟨c, hc, ?_⟩
    have hany : ∃ x ∈ c.columns, x ∈ updated := ⟨_, hcol, hupdated⟩
    simp [hany, ReferentialAction.writes_iff.mpr hrule]

lemma fires_of_mem {x : CascadeEffect}
    (haction : action = .delete ∨ action = .update) (hx : x ∈ cascadeEffects e action updated) :
    Fires e action updated x.cascade x.action x.columns := by
  unfold cascadeEffects at hx
  obtain ⟨c, hc, hx⟩ := mem_filterMap.mp hx
  rcases haction with rfl | rfl
  · simp only [reduceCtorEq, false_and, if_false, true_and] at hx
    split at hx
    · cases hx
    rename_i hwrites
    have hrule := ReferentialAction.writes_iff.mp (by simpa using hwrites)
    split at hx
    · rename_i hcascade
      cases hx
      exact .deleted hc hcascade
    · rename_i hcascade
      cases hx
      exact .unset hc (hrule.resolve_left hcascade)
  · simp only [true_and, reduceCtorEq, false_and, if_false, if_true] at hx
    split at hx
    · cases hx
    rename_i hcols
    split at hx
    · cases hx
    rename_i hwrites
    cases hx
    obtain ⟨col, hcol, hupdated⟩ : ∃ col ∈ c.columns, col ∈ updated := by simpa using hcols
    exact .rewritten hc hcol hupdated (ReferentialAction.writes_iff.mp (by simpa using hwrites))

lemma Fires.action_eq {action' : Action} {columns : List String} {c : Cascade}
    (h : Fires e action updated c action' columns) : action' = .delete ∨ action' = .update := by
  cases h
  · exact .inl rfl
  · exact .inr rfl
  · exact .inr rfl

lemma mem_cascadeEffects {x : CascadeEffect}
    (hx : x ∈ cascadeEffects e action updated) :
    x.cascade ∈ e.cascades ∧
      (x.action = .delete ∧ x.columns = [] ∨ x.action = .update ∧ x.columns = x.cascade.foreignColumns) := by
  unfold cascadeEffects at hx
  obtain ⟨c, hc, hx⟩ := mem_filterMap.mp hx
  split at hx
  · cases hx
  simp only at hx
  generalize (if action = .update then c.onUpdate else c.onDelete) = rule at hx
  split at hx
  · cases hx
  split at hx <;> cases hx <;> simp [hc]

variable {w : CascadedWrite}

/-- What a covered effect says: its entity is registered and the authorizer allows the
write there without a row filter. -/
lemma coverEffect_ok {tc : Context} {effect : CascadeEffect} (h : coverEffect tc effect = .ok w) :
    ∃ f dec, tc.registry.resolve effect.cascade.entity = some f ∧ w = ⟨f.entity, effect.action, effect.columns⟩ ∧
      tc.authorize { role := tc.role, subject := tc.subject, entity := effect.cascade.entity, action := effect.action,
                     writeFields := effect.columns } = .ok dec ∧ dec.allowed = true ∧ dec.rowFilter.isNil = true := by
  simp only [coverEffect] at h
  split at h
  · cases h
  split at h
  · cases h
  rename_i f hf
  split at h
  · cases h
  rename_i dec hdec
  split at h
  · cases h
  rename_i hcovered
  cases h
  simp only [Bool.not_eq_true', not_or, Bool.not_eq_false] at hcovered
  exact ⟨f, dec, hf, rfl, hdec, hcovered⟩

variable {reg : Registry} {w' : CascadedWrite}

section Walk
variable {tc : Context} {start : CascadedWrite}

abbrev WalkLeads (tc : Context) : CascadedWrite → CascadedWrite → Prop :=
  Search.Leads (·.entity.allowCascade) fun w => w.effects.map (coverEffect tc)

def CascadedWrite.Writes (w : CascadedWrite) : Prop := w.action = .delete ∨ w.action = .update

lemma Cascades.writes (h : Cascades reg w w') : w'.Writes := by
  obtain ⟨-, c, f, hfires, -, -⟩ := h
  exact hfires.action_eq

lemma chain_writes (hw : w.Writes) (h : CascadeChain reg w w') :
    w'.Writes := by
  cases h with
  | refl => exact hw
  | tail _ hlast => exact hlast.writes

lemma cascades_of_leads (hw : w.Writes) (h : WalkLeads tc w w') :
    Cascades tc.registry w w' := by
  obtain ⟨hstop, hmem⟩ := h
  obtain ⟨effect, heffect, hok⟩ := mem_map.mp hmem
  obtain ⟨f, dec, hf, rfl, -⟩ := coverEffect_ok hok
  exact ⟨hstop, effect.cascade, f, fires_of_mem hw heffect, hf, rfl⟩

lemma chain_of_walk (hstart : start.Writes) (h : Relation.ReflTransGen (WalkLeads tc) start w) :
    CascadeChain tc.registry start w := by
  induction h with
  | refl => exact .refl
  | tail _ hlast ih => exact ih.tail (cascades_of_leads (chain_writes hstart ih) hlast)

lemma walk_of_chain (hstart : start.Writes)
    (hcovered : ∀ w, Relation.ReflTransGen (WalkLeads tc) start w → w.entity.allowCascade = false →
      ∀ x ∈ w.effects.map (coverEffect tc), ∃ w', x = .ok w')
    (h : CascadeChain tc.registry start w) : Relation.ReflTransGen (WalkLeads tc) start w := by
  induction h with
  | refl => exact .refl
  | @tail w next hchain hlast ih =>
    obtain ⟨hstop, c, f, hfires, hf, hentity⟩ := hlast
    have hmem := mem_map_of_mem (f := coverEffect tc) hfires.mem_cascadeEffects
    obtain ⟨w', hw'⟩ := hcovered _ ih hstop _ hmem
    obtain ⟨f', dec, hf', hnext, -⟩ := coverEffect_ok hw'
    obtain rfl : f = f' := Option.some.inj (hf.symm.trans hf')
    have hsame : w' = next := by rw [hnext, hentity]
    rw [hw', hsame] at hmem
    exact ih.tail ⟨hstop, hmem⟩

end Walk

lemma mem_cascadedWrites {start : CascadedWrite} :
    w ∈ cascadedWrites reg start ↔ w = start ∨ w.entity ∈ reg.entities ∧
      (w.action = .delete ∧ w.columns = [] ∨
        w.action = .update ∧ ∃ c ∈ (start.entity :: reg.entities).flatMap (·.cascades), w.columns = c.foreignColumns) := by
  obtain ⟨f, action, columns⟩ := w
  simp only [cascadedWrites, mem_cons, mem_flatMap, mem_map, CascadedWrite.mk.injEq]
  constructor
  · rintro (h | ⟨g, hg, ⟨rfl, rfl, rfl⟩ | ⟨c, hc, rfl, rfl, rfl⟩⟩)
    · exact .inl h
    · exact .inr ⟨hg, .inl ⟨rfl, rfl⟩⟩
    · exact .inr ⟨hg, .inr ⟨rfl, c, hc, rfl⟩⟩
  · rintro (h | ⟨hg, ⟨rfl, rfl⟩ | ⟨rfl, c, hc, rfl⟩⟩)
    · exact .inl h
    · exact .inr ⟨f, hg, .inl ⟨rfl, rfl, rfl⟩⟩
    · exact .inr ⟨f, hg, .inr ⟨c, hc, rfl, rfl, rfl⟩⟩

lemma cascadedWrites_closed {tc : Context} {start : CascadedWrite} (hw : w ∈ cascadedWrites tc.registry start)
    (h : WalkLeads tc w w') : w' ∈ cascadedWrites tc.registry start := by
  have hentity : w.entity ∈ start.entity :: tc.registry.entities := by
    rcases mem_cascadedWrites.mp hw with rfl | ⟨hreg, -⟩
    · exact mem_cons_self
    · exact mem_cons_of_mem _ hreg
  obtain ⟨effect, heffect, hok⟩ := mem_map.mp h.2
  obtain ⟨f, dec, hf, rfl, -⟩ := coverEffect_ok hok
  obtain ⟨hc, hshape⟩ := mem_cascadeEffects heffect
  refine mem_cascadedWrites.mpr (.inr ⟨Registry.resolve_mem hf, hshape.imp_right fun h => ⟨h.1, _, ?_, h.2⟩⟩)
  exact mem_flatMap.mpr ⟨w.entity, hentity, hc⟩

lemma checkCascades_isSome (tc : Context) (e : Entity) (action : Action) (updated : List String) :
    ∃ r, checkCascades tc e action updated = some r := by
  set start : CascadedWrite := ⟨e, action, columnNames e updated⟩ with hstart
  have hlength : Search.unseen ((cascadedWrites tc.registry start).map CascadedWrite.key) [] <
      (cascadedWrites tc.registry start).length + 1 := by
    have hle := Search.unseen_le_length ((cascadedWrites tc.registry start).map CascadedWrite.key) []
    rw [length_map] at hle
    omega
  obtain ⟨r, hr, -⟩ := Search.walk_isSome (P := (· ∈ cascadedWrites tc.registry start))
    (fun w w' hw h => cascadedWrites_closed hw h) (fun w hw => mem_map_of_mem hw)
    (mem_cascadedWrites.mpr (.inl rfl)) hlength
  refine ⟨r.map fun _ => (), ?_⟩
  simp only [checkCascades, walkCascades, ← hstart]
  rw [hr]
  rfl

def byGrants (tc : Context) (a : Rbac.GrantAuthorizer) (memo : Rbac.GrantAuthorizer.Memo a) : Context :=
  { tc with registry := a.registry, authorize := fun req => .ok (Rbac.authorize a memo req).1 }

/-- A role may make a write on every row: the entity has no tenant policy, and a grant the
role holds there allows the action, lists the columns rewritten and has no row scope. -/
def MayWrite (a : Rbac.GrantAuthorizer) (role : String) (f : Resolved) (action : Action) (columns : List String) : Prop :=
  f.entity.tenantPolicy.isNil = true ∧ ∃ g, a.Candidate f.entity (a.normalize role) action g ∧
    Rbac.coversFields f.attributes [] columns g = true ∧ g.rows.isNil = true

lemma effectiveRowFilter_isNil {covering : List Rbac.Grant} {tenant : Predicate}
    (h : (Rbac.effectiveRowFilter covering tenant).1.isNil = true) :
    tenant.isNil = true ∧ ∃ g ∈ covering, g.rows.isNil = true := by
  simp only [Rbac.effectiveRowFilter] at h
  have hor : (Rbac.orPredicates ((covering.map (·.rows)).filter fun p => !p.isNil)).isNil = false := by
    unfold Rbac.orPredicates
    split
    · rename_i p hp
      have hmem : p ∈ (covering.map (·.rows)).filter fun p => !p.isNil := hp ▸ mem_singleton_self p
      simpa using (mem_filter.mp hmem).2
    · rfl
  by_cases hany : covering.any fun g => g.rows.isNil
  · rw [if_pos hany] at h
    refine ⟨?_, List.any_eq_true.mp hany⟩
    by_contra htenant
    rw [if_neg htenant] at h
    exact htenant h
  · rw [if_neg hany] at h
    split at h
    · simp [hor] at h
    · rw [Rbac.andPredicates, if_neg (by simp [hor])] at h
      cases h

lemma mayWrite_of_authorize {a : Rbac.GrantAuthorizer} {memo : Rbac.GrantAuthorizer.Memo a} {req : Rbac.Request}
    {f : Resolved} (hf : a.registry.resolve req.entity = some f) (hfields : req.fields = []) (hread : req.readFields = [])
    (haction : req.action = .delete ∨ req.action = .update)
    (hallowed : (Rbac.authorize a memo req).1.allowed = true)
    (hfilter : (Rbac.authorize a memo req).1.rowFilter.isNil = true) :
    MayWrite a req.role f req.action req.writeFields := by
  rw [Rbac.authorize_fst memo hf] at hallowed hfilter
  obtain ⟨projected, serving, hproject, -, hrows⟩ := Rbac.decision_allowed hallowed
  rw [hrows, Rbac.resolveSubject, Rbac.isNil_mapConditions] at hfilter
  obtain ⟨htenant, g, hg, hnil⟩ := effectiveRowFilter_isNil hfilter
  obtain ⟨hmem, hcovers⟩ := mem_filter.mp ((Rbac.project_ok hproject).1 g hg)
  have hused : Rbac.usedFields { req with role := a.normalize req.role } = ([], req.writeFields) := by
    rcases haction with haction | haction <;> by_cases hw : req.writeFields = [] <;>
      simp [Rbac.usedFields, hread, hfields, hw, haction]
  refine ⟨htenant, g, ?_, by simpa [hused] using hcovers, hnil⟩
  by_cases hrole : a.normalize req.role = ""
  · rw [if_pos hrole] at hmem
    cases hmem
  · rw [if_neg hrole] at hmem
    exact ⟨hrole, a.mem_findCandidates.mp hmem⟩

/-- Every write a chain of foreign keys triggers, through entities that have cascades checked,
reaches a registered entity where the role may make it. -/
def CascadesCovered (a : Rbac.GrantAuthorizer) (role : String) (start : CascadedWrite) : Prop :=
  ∀ w, CascadeChain a.registry start w → w.entity.allowCascade = false →
    ∀ c action columns, Fires w.entity w.action w.columns c action columns →
      ∃ f, a.registry.resolve c.entity = some f ∧ MayWrite a role f action columns

def PlainName (name : String) : Prop := '\x00' ∉ name.toList ∧ name ≠ ""

lemma actionText_inj {a b : Action} (h : actionText a = actionText b) : a = b := by
  cases a <;> cases b <;> first | rfl | exact absurd h (by decide)

lemma nul_not_mem_actionText (hw : w.Writes) : '\x00' ∉ (actionText w.action).toList := by
  rcases hw with h | h <;> rw [h] <;> decide

lemma CascadedWrite.key_inj {w₁ w₂ : CascadedWrite} (h₁ : w₁.Writes) (h₂ : w₂.Writes) (hn₁ : PlainName w₁.entity.name)
    (hn₂ : PlainName w₂.entity.name) (hc₁ : ∀ c ∈ w₁.columns, PlainName c) (hc₂ : ∀ c ∈ w₂.columns, PlainName c)
    (h : w₁.key = w₂.key) :
    w₁.entity.name = w₂.entity.name ∧ w₁.action = w₂.action ∧ w₁.columns = w₂.columns := by
  have hlist := congrArg String.toList h
  have hnul : "\x00" = String.singleton '\x00' := rfl
  simp only [key, hnul, String.toList_append, String.toList_singleton, append_assoc, singleton_append] at hlist
  obtain ⟨hname, hrest⟩ := GoStrings.append_sep_inj hn₁.1 hn₂.1 hlist
  obtain ⟨haction, hcolumns⟩ := GoStrings.append_sep_inj (nul_not_mem_actionText h₁) (nul_not_mem_actionText h₂) hrest
  exact ⟨String.toList_inj.mp hname, actionText_inj (String.toList_inj.mp haction),
    GoStrings.join_inj_of_ne_empty '\x00' hc₁ hc₂ (String.toList_inj.mp hcolumns)⟩

lemma Cascades.target (h : Cascades reg w w') :
    w'.entity ∈ reg.entities ∧ (w'.columns = [] ∨ ∃ c ∈ w.entity.cascades, w'.columns = c.foreignColumns) := by
  obtain ⟨-, c, f, hfires, hf, hentity⟩ := h
  refine ⟨hentity ▸ Registry.resolve_mem hf, ?_⟩
  obtain ⟨hc, h | h⟩ := mem_cascadeEffects hfires.mem_cascadeEffects
  · exact .inl h.2
  · exact .inr ⟨c, hc, h.2⟩

lemma keysTell_of_plain {start : CascadedWrite} (hstart : start.Writes)
    (hname : ∀ f ∈ reg.entities, f.name = start.entity.name → f = start.entity)
    (hplain : ∀ f, f = start.entity ∨ f ∈ reg.entities → PlainName f.name ∧ ∀ c ∈ f.cascades, ∀ col ∈ c.foreignColumns, PlainName col)
    (hcolumns : ∀ col ∈ start.columns, PlainName col) : KeysTell reg start := by
  have hreached : ∀ w, CascadeChain reg start w →
      (w.entity = start.entity ∨ w.entity ∈ reg.entities) ∧ ∀ col ∈ w.columns, PlainName col := by
    intro w hw
    induction hw with
    | refl => exact ⟨.inl rfl, hcolumns⟩
    | tail _ hlast ih =>
      obtain ⟨hmem, hcols⟩ := hlast.target
      refine ⟨.inr hmem, ?_⟩
      rcases hcols with hcols | ⟨c, hc, hcols⟩
      · simp [hcols]
      · rw [hcols]
        exact (hplain _ ih.1).2 c hc
  intro w₁ w₂ hw₁ hw₂ hkey
  obtain ⟨he₁, hc₁⟩ := hreached w₁ hw₁
  obtain ⟨he₂, hc₂⟩ := hreached w₂ hw₂
  obtain ⟨hn, ha, hc⟩ := CascadedWrite.key_inj (chain_writes hstart hw₁) (chain_writes hstart hw₂) (hplain _ he₁).1
    (hplain _ he₂).1 hc₁ hc₂ hkey
  have hentity : w₁.entity = w₂.entity := by
    rcases he₁ with he₁ | he₁ <;> rcases he₂ with he₂ | he₂
    · rw [he₁, he₂]
    · exact he₁.trans (hname _ he₂ (hn ▸ congrArg Entity.name he₁)).symm
    · exact (hname _ he₁ (hn.trans (congrArg Entity.name he₂))).trans he₂.symm
    · exact reg.eq_of_name_eq he₁ he₂ hn
  unfold CascadedWrite.effects
  rw [hentity, ha, hc]

/-- Customers, whose orders a delete takes along, and with an order its lines; a line
refers to the order it replaces. -/
def shop : Registry :=
  ⟨[{ name := "customers", cascades := [{ entity := "orders", onDelete := .cascade }] },
    { name := "orders", cascades := [{ entity := "lines", onDelete := .cascade }] },
    { name := "lines", cascades := [{ entity := "orders", foreignColumns := ["replaces"], onDelete := .setNull }] }],
    by simp, by decide⟩

def customers : Entity := { name := "customers", cascades := [{ entity := "orders", onDelete := .cascade }] }

def clerkOf (reg : Registry) (entities : List String) : Rbac.GrantAuthorizer :=
  { registry := reg, lower := Char.toLower,
    policy := { principals := [("clerk", { grants := entities.map fun e =>
      (e, [{ id := "all", actions := [.delete, .update] }]) })] } }

def clerkContext (reg : Registry) : Context :=
  { registry := reg, role := "clerk", parsers := ⟨fun _ => none, fun _ => none⟩, authorize := fun _ => .error "" }

lemma shop_keysTell : KeysTell shop ⟨customers, .delete, []⟩ := by
  apply keysTell_of_plain (.inl rfl)
  · intro f hf hname
    simp only [shop, mem_cons, not_mem_nil, or_false] at hf
    rcases hf with rfl | rfl | rfl
    · rfl
    · exact absurd hname (by decide)
    · exact absurd hname (by decide)
  · intro f hf
    have hmem : f ∈ shop.entities := hf.elim (fun h => by simp [h, shop, customers]) fun h => h
    simp only [shop, mem_cons, not_mem_nil, or_false] at hmem
    rcases hmem with rfl | rfl | rfl <;> simp [PlainName]
  · simp

/-- Two entities, one named as the other with an update of it, that a delete of accounts
unsets in columns which make up the difference. -/
def accounts : Entity :=
  { name := "accounts",
    cascades := [{ entity := "cards", foreignColumns := ["\x02", "account"], onDelete := .setNull },
                 { entity := "cards\x00\x02", foreignColumns := ["account"], onDelete := .setNull }] }

def bank : Registry :=
  ⟨[accounts, { name := "cards" },
    { name := "cards\x00\x02", cascades := [{ entity := "limits", columns := ["account"], foreignColumns := ["account"],
                                              onUpdate := .cascade }] },
    { name := "limits" }], by simp [accounts], by decide⟩

end SqlMcpServer.Tool
