import SqlMcpServer.Rbac
import SqlMcpServer.Tool.Filter

/-!
# Relationships

`related.go`: how a read or an aggregate names its entity's relationships. A field of a
relationship that names one row is joined; an exists group becomes an EXISTS of the target.
-/

namespace SqlMcpServer.Tool

open List
open Except (bind_eq_ok refuseIf pure_eq_ok)
open Relalg

/-- What planning reads of a call's context: the registry, the caller and the authorizer
(any answer to a request), the limit on conditions, and whether routing to an entity's
datasource fails. -/
structure Context where
  registry : Registry
  authorize : Rbac.Request → Except String Rbac.Decision
  role : String
  subject : Rbac.Subject := fun _ => .null
  maxFilterConditions : Int := 0
  parsers : Parsers
  route : Entity → Action → Except ToolError Unit := fun _ _ => .ok ()

def resolveDMLEntity (tc : Context) (name : String) : Except ToolError Resolved :=
  match tc.registry.resolve name with
  | none => .error .entityNotFound
  | some res => if res.entity.dmlTools then .ok res else .error .dmlToolsDisabled

/-- Authorizes a request, refusing a read of nothing and then an entity the database
cannot serve. -/
def authorizeRequest (tc : Context) (req : Rbac.Request) : Except ToolError Rbac.Decision :=
  match tc.authorize req with
  | .error e => .error (.authorizer e)
  | .ok dec =>
    if !dec.allowed then .error .unauthorized
    else if req.action = .read ∧ dec.fields = [] then .error .unauthorized
    else
      match tc.registry.resolve req.entity with
      | some res => if res.entity.unavailable ≠ "" then .error .entityUnavailable else .ok dec
      | none => .ok dec

def sorted (names : List String) : List String := names.insertionSort (· ≤ ·)

structure JoinColumns where
  locals : List String
  target : List String

def relationJoin (r : Relationship) : JoinColumns :=
  let locals := sorted (r.joinOn.map (·.1))
  ⟨locals, locals.map fun l => (r.joinOn.lookup l).getD ""⟩

def joinPairs (join : JoinColumns) : List JoinPair :=
  (join.locals.zip join.target).map fun p => ⟨p.1, p.2⟩

def relationshipByName (e : Entity) (name : String) : Option Relationship :=
  e.relations.find? (·.name == name)

def pathOf (e : Entity) (field : String) : Option (Relationship × String) :=
  match cutDot field with
  | none => none
  | some (name, rest) => (relationshipByName e name).map (·, rest)

def splitPaths (e : Entity) (fields : List String) : List String × List String :=
  fields.partition fun f => (pathOf e f).isNone

/-- A row filter the authorizer returned, with the entity it is of. -/
abbrev RowFilter := Entity × Predicate

def relatedTarget (tc : Context) (e : Entity) (r : Relationship) (fields : List String) :
    Except ToolError (Resolved × Rbac.Decision) := do
  let target ← resolveDMLEntity tc r.target
  refuseIf (target.entity.dataSource ≠ e.dataSource) (.crossDatasource r.name)
  let used := fields ++ (relationJoin r).target
  FieldUses.check { compared := used } target
  let g ← authorizeRequest tc { role := tc.role, subject := tc.subject, entity := target.entity.name,
                                action := .read, fields := used, readFields := used }
  return (target, g)

structure JoinSpec where
  right : RelationRef
  aliasName : String
  on : List JoinPair
  rightPred : Predicate

/-- The joins of a plan, the entity's columns they read, the IR's names of the paths and (not in
the code) the targets' row filters. -/
structure Related where
  joins : List JoinSpec := []
  locals : List String := []
  rename : List (String × String) := []
  filters : List RowFilter := []

def byRelation (e : Entity) (paths : List String) : List (String × List String) :=
  let named := paths.filterMap (pathOf e)
  (sorted (firstOccurrences (named.map (·.1.name)))).map fun name =>
    (name, (named.filter (·.1.name == name)).map (·.2))

def isKey (keys : List (List String)) (columns : List String) : Bool :=
  keys.any fun k => k.length == columns.length && k.all columns.contains

def planJoinsFrom (tc : Context) (e : Entity) : List (String × List String) → Related → Except ToolError Related
  | [], out => .ok out
  | (name, fields) :: rest, out =>
    match relationshipByName e name with
    | none => .error (.unknownRelationship name)
    | some r => do
      refuseIf (r.single = false) (.namesManyRows name)
      let (target, g) ← relatedTarget tc e r fields
      let join := relationJoin r
      refuseIf (isKey (target.entity.identityKeys false false) join.target = false) (.joinsOnNoKey name)
      planJoinsFrom tc e rest
        { joins := out.joins ++ [⟨target.entity.ref, name, joinPairs join, g.rowFilter⟩],
          locals := out.locals ++ join.locals,
          rename := out.rename ++ fields.map fun f =>
            (joinName name f, joinName name (((target.entity.attributeByName f).map (·.name)).getD "")),
          filters := out.filters ++ [(target.entity, g.rowFilter)] }

def planJoins (tc : Context) (e : Entity) (paths : List String) : Except ToolError Related :=
  planJoinsFrom tc e (byRelation e paths) {}

structure JoinStep where
  relation : Relationship
  fields : List String
  target : Resolved
  grant : Rbac.Decision

namespace JoinStep

structure Accepted (tc : Context) (e : Entity) (s : JoinStep) : Prop where
  named : relationshipByName e s.relation.name = some s.relation
  single : s.relation.single = true
  authorized : relatedTarget tc e s.relation s.fields = .ok (s.target, s.grant)
  key : isKey (s.target.entity.identityKeys false false) (relationJoin s.relation).target = true

def join (s : JoinStep) : JoinSpec :=
  ⟨s.target.entity.ref, s.relation.name, joinPairs (relationJoin s.relation), s.grant.rowFilter⟩

def rename (s : JoinStep) : List (String × String) :=
  s.fields.map fun f => (joinName s.relation.name f,
    joinName s.relation.name (((s.target.entity.attributeByName f).map (·.name)).getD ""))

end JoinStep

def Related.add (acc : Related) (steps : List JoinStep) : Related where
  joins := acc.joins ++ steps.map (·.join)
  locals := acc.locals ++ steps.flatMap fun s => (relationJoin s.relation).locals
  rename := acc.rename ++ steps.flatMap (·.rename)
  filters := acc.filters ++ steps.map fun s => (s.target.entity, s.grant.rowFilter)

lemma relationshipByName_name {e : Entity} {name : String} {r : Relationship}
    (h : relationshipByName e name = some r) : r.name = name := by simpa using find?_some h

lemma planJoinsFrom_ok {tc : Context} {e : Entity} {rels : List (String × List String)} {acc out : Related}
    (h : planJoinsFrom tc e rels acc = .ok out) :
    ∃ steps : List JoinStep, (∀ s ∈ steps, s.Accepted tc e) ∧ rels = steps.map (fun s => (s.relation.name, s.fields)) ∧
      out = acc.add steps := by
  induction rels generalizing acc with
  | nil =>
    rw [planJoinsFrom, Except.ok.injEq] at h
    exact ⟨[], by simp, rfl, by simp [← h, Related.add]⟩
  | cons rel rest ih =>
    obtain ⟨name, fields⟩ := rel
    rw [planJoinsFrom] at h
    split at h
    · cases h
    · rename_i r hr
      obtain ⟨_, hsingle, h⟩ := bind_eq_ok.mp h
      obtain ⟨⟨target, g⟩, htarget, h⟩ := bind_eq_ok.mp h
      obtain ⟨_, hkey, h⟩ := bind_eq_ok.mp h
      obtain ⟨steps, hsteps, hrels, hout⟩ := ih h
      have hname := relationshipByName_name hr
      refine ⟨⟨r, fields, target, g⟩ :: steps, ?_, by simp [hrels, hname], ?_⟩
      · intro s hs
        rcases mem_cons.mp hs with rfl | hs
        · exact ⟨by simpa [hname] using hr, by simpa using hsingle, htarget, by simpa using hkey⟩
        · exact hsteps s hs
      · rw [hout, Related.add, Related.add]
        simp [JoinStep.join, JoinStep.rename, hname]

def wrap (joins : List JoinSpec) (expr : Expr) : Expr :=
  joins.foldl (fun expr j => .join expr j.right j.aliasName j.on j.rightPred) expr

def Related.field (r : Related) (f : String) : String := (r.rename.lookup f).getD f

def Related.renamed (r : Related) (p : Predicate) : Predicate :=
  mapConditions (fun c => { c with field := r.field c.field }) p

/-- What `resolveExists` gives: the predicate, the entity's columns the relationships read, and
(not in the code) the targets' row filters. -/
structure Resolution (α : Type) where
  out : α
  locals : List String
  filters : List RowFilter

def resolveOne (tc : Context) (e : Entity) (r : RelationRef) (on : List JoinPair) (p : Predicate) :
    Except ToolError (Resolution Predicate) :=
  match relationshipByName e r.name with
  | none => .error (.notRelationship r.name)
  | some relation => do
    refuseIf (on ≠ []) (.notRelationship r.name)
    refuseIf (hasExists p = true) .existsNests
    let (target, g) ← relatedTarget tc e relation (fields p)
    let join := relationJoin relation
    let inner ← coercePredicate tc.parsers target.entity (columnsPredicate target.entity p)
    return ⟨.ex target.entity.ref (joinPairs join) (andPreds inner g.rowFilter), join.locals,
      [(target.entity, g.rowFilter)]⟩

mutual
def resolveExists (tc : Context) (e : Entity) : Predicate → Except ToolError (Resolution Predicate)
  | .ex r on p => resolveOne tc e r on p
  | .and preds => do
    let r ← resolveAll tc e preds
    return ⟨.and r.out, r.locals, r.filters⟩
  | .or preds => do
    let r ← resolveAll tc e preds
    return ⟨.or r.out, r.locals, r.filters⟩
  | .not p => do
    let r ← resolveExists tc e p
    return ⟨.not r.out, r.locals, r.filters⟩
  | p => .ok ⟨p, [], []⟩

def resolveAll (tc : Context) (e : Entity) : List Predicate → Except ToolError (Resolution (List Predicate))
  | [] => .ok ⟨[], [], []⟩
  | p :: ps => do
    let r ← resolveExists tc e p
    let rs ← resolveAll tc e ps
    return ⟨r.out :: rs.out, r.locals ++ rs.locals, r.filters ++ rs.filters⟩
end

/-- What an EXISTS resolves to: rows of a relationship's target, through its row filter. -/
structure ResolvedExists (tc : Context) (e : Entity) (locals : List String) (filters : List RowFilter)
    (r : RelationRef) (on : List JoinPair) (p : Predicate) where
  relation : Relationship
  target : Resolved
  grant : Rbac.Decision
  request : Predicate
  inner : Predicate
  named : relationshipByName e relation.name = some relation
  plain : hasExists request = false
  authorized : relatedTarget tc e relation (fields request) = .ok (target, grant)
  coerced : coercePredicate tc.parsers target.entity (columnsPredicate target.entity request) = .ok inner
  ref_eq : r = target.entity.ref
  on_eq : on = joinPairs (relationJoin relation)
  pred_eq : p = andPreds inner grant.rowFilter
  local_mem : ∀ l ∈ (relationJoin relation).locals, l ∈ locals
  filter_mem : (target.entity, grant.rowFilter) ∈ filters

lemma ResolvedExists.mono {tc : Context} {e : Entity} {ls ms : List String} {fs gs : List RowFilter} {r : RelationRef}
    {on : List JoinPair} {p : Predicate} (h : Nonempty (ResolvedExists tc e ls fs r on p)) (hl : ∀ l ∈ ls, l ∈ ms)
    (hf : ∀ f ∈ fs, f ∈ gs) : Nonempty (ResolvedExists tc e ms gs r on p) := by
  obtain ⟨h⟩ := h
  exact ⟨{ h with local_mem := fun l hmem => hl l (h.local_mem l hmem), filter_mem := hf _ h.filter_mem }⟩

lemma resolveOne_ok {tc : Context} {e : Entity} {ref : RelationRef} {on : List JoinPair} {p : Predicate}
    {res : Resolution Predicate} (h : resolveOne tc e ref on p = .ok res) :
    ∃ r on' q, res.out = .ex r on' q ∧ Nonempty (ResolvedExists tc e res.locals res.filters r on' q) := by
  unfold resolveOne at h
  split at h
  · cases h
  · rename_i relation hrelation
    obtain ⟨_, -, h⟩ := bind_eq_ok.mp h
    obtain ⟨_, hplain, h⟩ := bind_eq_ok.mp h
    obtain ⟨⟨target, g⟩, htarget, h⟩ := bind_eq_ok.mp h
    obtain ⟨inner, hinner, h⟩ := bind_eq_ok.mp h
    rw [pure_eq_ok, Except.ok.injEq] at h
    subst h
    refine ⟨_, _, _, rfl, ⟨⟨relation, target, g, p, inner, ?_, by simpa using hplain, htarget, hinner, rfl, rfl, rfl,
      fun _ => id, by simp⟩⟩⟩
    rw [relationshipByName_name hrelation, hrelation]

lemma resolveExists_each {tc : Context} {e : Entity} {C : Condition → Prop} {p : Predicate}
    {res : Resolution Predicate} (hC : ∀ c ∈ conditions p, C c) (h : resolveExists tc e p = .ok res) :
    Each C (fun r on q => Nonempty (ResolvedExists tc e res.locals res.filters r on q)) res.out := by
  have hlist : ∀ {ps : List Predicate} {rs : Resolution (List Predicate)},
      (∀ p ∈ ps, ∀ res, resolveExists tc e p = .ok res →
        Each C (fun r on q => Nonempty (ResolvedExists tc e res.locals res.filters r on q)) res.out) →
      resolveAll tc e ps = .ok rs →
      ∀ q ∈ rs.out, Each C (fun r on q => Nonempty (ResolvedExists tc e rs.locals rs.filters r on q)) q := by
    intro ps
    induction ps with
    | nil =>
      intro rs _ hrs
      rw [resolveAll, Except.ok.injEq] at hrs
      simp [← hrs]
    | cons p ps ihps =>
      intro rs ih hrs
      rw [resolveAll] at hrs
      obtain ⟨r, hr, hrs⟩ := bind_eq_ok.mp hrs
      obtain ⟨rest, hrest, hrs⟩ := bind_eq_ok.mp hrs
      rw [pure_eq_ok, Except.ok.injEq] at hrs
      subst hrs
      intro q hq
      rcases mem_cons.mp hq with rfl | hq
      · exact (ih p (by simp) r hr).mono (fun _ => id) fun _ _ _ hex =>
          ResolvedExists.mono hex (fun l hl => mem_append_left _ hl) fun f hf => mem_append_left _ hf
      · exact (ihps (fun p hp => ih p (mem_cons_of_mem _ hp)) hrest q hq).mono (fun _ => id) fun _ _ _ hex =>
          ResolvedExists.mono hex (fun l hl => mem_append_right _ hl) fun f hf => mem_append_right _ hf
  induction p using Predicate.ind generalizing res with
  | nil =>
    simp only [resolveExists, Except.ok.injEq] at h
    exact h ▸ .nil
  | cond c =>
    simp only [resolveExists, Except.ok.injEq] at h
    exact h ▸ .cond (hC c (by simp [conditions]))
  | and ps ih =>
    rw [resolveExists] at h
    obtain ⟨rs, hrs, h⟩ := bind_eq_ok.mp h
    rw [pure_eq_ok, Except.ok.injEq] at h
    refine h ▸ .and (hlist (fun p hp r hr => ih p hp (fun c hc => hC c ?_) hr) hrs)
    simpa [conditions, mem_conditionsList] using ⟨p, hp, hc⟩
  | or ps ih =>
    rw [resolveExists] at h
    obtain ⟨rs, hrs, h⟩ := bind_eq_ok.mp h
    rw [pure_eq_ok, Except.ok.injEq] at h
    refine h ▸ .or (hlist (fun p hp r hr => ih p hp (fun c hc => hC c ?_) hr) hrs)
    simpa [conditions, mem_conditionsList] using ⟨p, hp, hc⟩
  | not p ih =>
    rw [resolveExists] at h
    obtain ⟨s, hs, h⟩ := bind_eq_ok.mp h
    rw [pure_eq_ok, Except.ok.injEq] at h
    exact h ▸ .not (ih (fun c hc => hC c (by simpa [conditions] using hc)) hs)
  | ex ref on p =>
    rw [resolveExists] at h
    obtain ⟨r, on', q, hout, hex⟩ := resolveOne_ok h
    rw [hout]
    exact .ex hex

structure Relations where
  rel : Related
  pred : Predicate
  locals : List String
  filters : List RowFilter

def relate (tc : Context) (e : Entity) (pred : Predicate) (paths : List String) : Except ToolError Relations := do
  let rel ← planJoins tc e paths
  let r ← resolveExists tc e (rel.renamed pred)
  return ⟨rel, r.out, rel.locals ++ r.locals, rel.filters ++ r.filters⟩

/-- What relating gives: the joins of the paths, and the predicate with paths named as the IR
names them and every EXISTS resolved. -/
lemma relate_ok {tc : Context} {e : Entity} {pred : Predicate} {paths : List String} {rs : Relations}
    (h : relate tc e pred paths = .ok rs) :
    (∃ steps : List JoinStep, (∀ s ∈ steps, s.Accepted tc e) ∧
      byRelation e paths = steps.map (fun s => (s.relation.name, s.fields)) ∧ rs.rel = Related.add {} steps ∧
      (∀ l ∈ rs.rel.locals, l ∈ rs.locals) ∧ ∀ f ∈ rs.rel.filters, f ∈ rs.filters) ∧
    ∀ C : Condition → Prop, (∀ c ∈ conditions pred, C { c with field := rs.rel.field c.field }) →
      Each C (fun r on q => Nonempty (ResolvedExists tc e rs.locals rs.filters r on q)) rs.pred := by
  obtain ⟨rel, hrel, h⟩ := bind_eq_ok.mp h
  obtain ⟨res, hres, h⟩ := bind_eq_ok.mp h
  rw [pure_eq_ok, Except.ok.injEq] at h
  subst h
  constructor
  · obtain ⟨steps, hsteps, hrels, hout⟩ := planJoinsFrom_ok hrel
    exact ⟨steps, hsteps, hrels, hout, fun l hl => mem_append_left _ hl, fun f hf => mem_append_left _ hf⟩
  · intro C hC
    refine (resolveExists_each (C := C) (fun c hc => ?_) hres).mono (fun _ => id) fun _ _ _ hex =>
      ResolvedExists.mono hex (fun l hl => mem_append_right _ hl) fun f hf => mem_append_right _ hf
    rw [Related.renamed, conditions_mapConditions] at hc
    obtain ⟨c', hc', rfl⟩ := mem_map.mp hc
    exact hC c' hc'

end SqlMcpServer.Tool
