import SqlMcpServer.Entity
import SqlMcpServer.Lib.GoStrings
import SqlMcpServer.Lib.Grouping
import SqlMcpServer.Lib.Search

/-!
# What a write invalidates

`invalidation.go`: the cached reads a write through an entity may have changed, worked out once
per configuration.
-/

namespace SqlMcpServer.Tool

open List
open Relalg

/-- A relation of a physical database, or all of it when the relation is empty. -/
structure CacheTarget where
  physical : String
  relation : String := ""
deriving DecidableEq, Repr

def cacheRelation (e : Entity) : String := if e.derived then "" else e.relationKey

/-- The server and catalog part of an entity's relation key. A key without a separator has
none: the code indexes out of range there. -/
def physicalDatabase (e : Entity) : Option String :=
  match GoStrings.splitN '\x00' 3 e.relationKey.toList with
  | server :: catalog :: _ => some (String.ofList server ++ "\x00" ++ String.ofList catalog)
  | _ => none

def compactTargets (targets : List CacheTarget) : List CacheTarget :=
  let whole (physical : String) : Bool := targets.any fun t => t.relation == "" && t.physical == physical
  Grouping.distinctBy (fun t : CacheTarget => t)
    (targets.map fun t => if whole t.physical then { t with relation := "" } else t)

/-- What writes through entities invalidate, the physical database of each datasource, and the
datasources of each. -/
structure WriteTargets where
  byEntity : List (String × List CacheTarget) := []
  datasources : List (String × List String) := []
  physical : List (String × String) := []

namespace WriteTargets
variable (w : WriteTargets) (reg : Registry)

def database (datasource : String) : Option String :=
  match w.physical.lookup datasource with
  | some database => some database
  | none => physicalDatabase { name := "", dataSource := datasource }

def databaseOf (e : Entity) : Option String :=
  if e.kind = .procedure then w.database e.datasourceName else physicalDatabase e

def whole (e : Entity) : Option (List CacheTarget) := (w.databaseOf e).map fun physical => [{ physical }]

def writes (e : Entity) : Option (List Entity) :=
  if e.kind ≠ .procedure then some [e]
  else if e.affects = [] then none
  else e.affects.mapM fun name => (reg.resolve name).map (·.entity)

/-- One round of the search: the target of an entity and the entities it cascades to, or
what to return at once. -/
def visit (e : Entity) : Except (Option (List CacheTarget)) (CacheTarget × List Entity) :=
  -- triggers or rules may write anything in the database
  if e.sideEffects then .error (w.whole e)
  else
    match physicalDatabase e with
    | none => .error none
    | some physical =>
      match e.cascades.mapM fun c => (reg.resolve c.entity).map (·.entity) with
      | none => .error (w.whole e)
      | some children => .ok ({ physical, relation := cacheRelation e }, children)

/-- What a write through an entity may change. No result is a crash on a relation key
without a database, or would be a search that does not end. -/
def compute (e : Entity) : Option (List CacheTarget) :=
  match writes reg e with
  | none => w.whole e
  | some writes =>
    match Search.worklist Entity.name (w.visit reg) (reg.entities.length + 2) writes [] [] with
    | none => none
    | some (.error early) => early
    | some (.ok targets) => some (compactTargets targets)

def located (database : Entity → Option String) (es : List Entity) : Option (List (String × String)) :=
  es.mapM fun e => (database e).map fun physical => (e.datasourceName, physical)

/-- `BuildWriteTargets`: what writes through the entities of a registry invalidate. Of a
datasource's tables the last gives its database; a datasource that serves only procedures
is its own. -/
def build : Option WriteTargets := do
  let tables ← located physicalDatabase (reg.entities.filter (·.kind ≠ .procedure))
  let known : WriteTargets := { physical := tables.reverse }
  let others ← located (fun e => known.database e.datasourceName)
    (reg.entities.filter fun e => (known.physical.lookup e.datasourceName).isNone)
  let reaching := tables ++ others
  let w : WriteTargets :=
    { physical := tables.reverse ++ others
      datasources := (firstOccurrences (reaching.map (·.2))).map fun database =>
        (database, (firstOccurrences ((reaching.filter (·.2 = database)).map (·.1))).insertionSort (· ≤ ·)) }
  let byEntity ← reg.entities.mapM fun e => (w.compute reg e).map fun targets => (e.name, targets)
  return { w with byEntity }

/-- What `afterWrite` invalidates: the targets worked out for the entity, or else those of
its registry. -/
def targetsOf (e : Entity) : Option (List CacheTarget) :=
  match w.byEntity.lookup e.name with
  | some targets => some targets
  | none => w.compute reg e

end WriteTargets

lemma physicalDatabase_isSome {e : Entity} (h : '\x00' ∈ e.relationKey.toList) :
    ∃ physical, physicalDatabase e = some physical := by
  unfold physicalDatabase
  cases hfirst : e.relationKey.toList.dropWhile (· ≠ '\x00') with
  | nil => exact absurd h (GoStrings.dropWhile_eq_nil.mp hfirst)
  | cons c rest =>
    cases hsecond : rest.dropWhile (· ≠ '\x00') with
    | nil => simp only [GoStrings.splitN, hfirst, hsecond, Option.some.injEq, exists_eq']
    | cons d rest' => simp only [GoStrings.splitN, hfirst, hsecond, Option.some.injEq, exists_eq']

lemma database_isSome (w : WriteTargets) (datasource : String) : ∃ physical, w.database datasource = some physical := by
  unfold WriteTargets.database
  split
  · exact ⟨_, rfl⟩
  · apply physicalDatabase_isSome
    simp [Entity.relationKey]

lemma mem_compactTargets {targets : List CacheTarget} {t : CacheTarget} (ht : t ∈ targets) :
    ∃ t' ∈ compactTargets targets, t'.physical = t.physical ∧ (t'.relation = t.relation ∨ t'.relation = "") := by
  unfold compactTargets
  simp only
  refine ⟨_, (Grouping.mem_distinctBy (fun _ _ _ _ h => h)).mpr (mem_map_of_mem ht), ?_⟩
  split
  · exact ⟨rfl, .inr rfl⟩
  · exact ⟨rfl, .inl rfl⟩

lemma distinctBy_replicate {t : CacheTarget} {ts : List CacheTarget} (hall : ∀ x ∈ ts, x = t) (hne : ts ≠ []) :
    Grouping.distinctBy (fun t : CacheTarget => t) ts = [t] := by
  have hmem : t ∈ Grouping.distinctBy (fun t : CacheTarget => t) ts := by
    obtain ⟨x, hx⟩ := exists_mem_of_ne_nil ts hne
    rw [Grouping.mem_distinctBy fun _ _ _ _ h => h]
    exact hall x hx ▸ hx
  have hnodup := Grouping.nodup_keys_distinctFrom (fun t : CacheTarget => t) ts []
  rw [map_id'] at hnodup
  have hsub : ∀ x ∈ Grouping.distinctBy (fun t : CacheTarget => t) ts, x = t := fun x hx =>
    hall x ((Grouping.distinctBy_sublist _ ts).subset hx)
  match hl : Grouping.distinctBy (fun t : CacheTarget => t) ts with
  | [] => simp [hl] at hmem
  | [x] => rw [hsub x (by simp [hl])]
  | x :: y :: l =>
    have hxy : x = y := (hsub x (by simp [hl])).trans (hsub y (by simp [hl])).symm
    unfold Grouping.distinctBy at hl
    rw [hl] at hnodup
    simp [hxy] at hnodup

lemma compactTargets_whole {targets : List CacheTarget} {d : String} (hall : ∀ t ∈ targets, t.physical = d)
    (hwhole : ({ physical := d } : CacheTarget) ∈ targets) : compactTargets targets = [{ physical := d }] := by
  unfold compactTargets
  apply distinctBy_replicate
  · intro x hx
    obtain ⟨t, ht, rfl⟩ := mem_map.mp hx
    have hany : (targets.any fun x => x.relation == "" && x.physical == t.physical) = true := by
      rw [List.any_eq_true]
      exact ⟨_, hwhole, by simp [hall t ht]⟩
    rw [if_pos hany, hall t ht]
  · simpa using ne_nil_of_mem hwhole

/-- A foreign key of `f` references `e` and writes when rows of `e` change. -/
def CascadesTo (reg : Registry) (e f : Entity) : Prop :=
  ∃ c ∈ e.cascades, ∃ res, reg.resolve c.entity = some res ∧ res.entity = f

def Touches (reg : Registry) (e f : Entity) : Prop :=
  if e.kind = .procedure then ∃ name ∈ e.affects, ∃ res, reg.resolve name = some res ∧ res.entity = f else f = e

/-- The entities a write through `e` reaches by any chain of cascades. -/
def Reaches (reg : Registry) (e f : Entity) : Prop :=
  ∃ s, Touches reg e s ∧ Relation.ReflTransGen (CascadesTo reg) s f

def Unbounded (reg : Registry) (f : Entity) : Prop :=
  f.sideEffects = true ∨ f.derived = true ∨ ∃ c ∈ f.cascades, reg.resolve c.entity = none

/-- All a write reaches is in the database it happens in: what a procedure affects, as
configurations require, and the ends of a foreign key. Neither is a procedure. -/
structure OneDatabase (w : WriteTargets) (reg : Registry) (e : Entity) : Prop where
  affected : ∀ s, e.kind = .procedure → Touches reg e s →
    s.kind ≠ .procedure ∧ physicalDatabase s = w.database e.datasourceName
  cascaded : ∀ f g, f = e ∨ f ∈ reg.entities → CascadesTo reg f g →
    g.kind ≠ .procedure ∧ physicalDatabase g = physicalDatabase f

section Search
variable {w : WriteTargets} {reg : Registry} {e f : Entity}

lemma Touches.mem (h : Touches reg e f) : f = e ∨ f ∈ reg.entities := by
  unfold Touches at h
  split at h
  · obtain ⟨name, -, res, hres, rfl⟩ := h
    exact .inr (Registry.resolve_mem hres)
  · exact .inl h

lemma Reaches.mem (h : Reaches reg e f) : f = e ∨ f ∈ reg.entities := by
  obtain ⟨s, hs, hchain⟩ := h
  cases hchain with
  | refl => exact hs.mem
  | tail _ hlast =>
    obtain ⟨c, -, res, hres, rfl⟩ := hlast
    exact .inr (Registry.resolve_mem hres)

lemma Reaches.tail {g : Entity} (h : Reaches reg e f) (hfg : CascadesTo reg f g) : Reaches reg e g := by
  obtain ⟨s, hs, hchain⟩ := h
  exact ⟨s, hs, hchain.tail hfg⟩

lemma OneDatabase.reached (hone : OneDatabase w reg e) (h : Reaches reg e f) :
    f.kind ≠ .procedure ∧ physicalDatabase f = w.databaseOf e := by
  obtain ⟨s, hs, hchain⟩ := h
  have hstart : s.kind ≠ .procedure ∧ physicalDatabase s = w.databaseOf e := by
    unfold WriteTargets.databaseOf
    by_cases hk : e.kind = .procedure
    · rw [if_pos hk]
      exact hone.affected s hk hs
    · rw [if_neg hk]
      unfold Touches at hs
      rw [if_neg hk] at hs
      exact ⟨hs ▸ hk, hs ▸ rfl⟩
  induction hchain with
  | refl => exact hstart
  | @tail b c hb hlast ih =>
    have hbc := hone.cascaded b c (Reaches.mem ⟨s, hs, hb⟩) hlast
    exact ⟨hbc.1, hbc.2.trans ih.2⟩

lemma mem_of_mapM {α β : Type} {g : α → Option β} {as : List α} {bs : List β} (h : as.mapM g = some bs) :
    (∀ a ∈ as, ∃ b ∈ bs, g a = some b) ∧ ∀ b ∈ bs, ∃ a ∈ as, g a = some b := by
  induction as generalizing bs with
  | nil =>
    simp only [mapM_nil, Option.pure_def, Option.some.injEq] at h
    simp [← h]
  | cons a as ih =>
    rw [mapM_cons] at h
    cases hb : g a with
    | none => simp [hb] at h
    | some b =>
      cases hbs : as.mapM g with
      | none => simp [hb, hbs] at h
      | some bs' =>
        obtain rfl : b :: bs' = bs := by simpa [hb, hbs] using h
        obtain ⟨hto, hfrom⟩ := ih hbs
        constructor
        · intro x hx
          rcases mem_cons.mp hx with rfl | hx
          · exact ⟨b, by simp, hb⟩
          · obtain ⟨y, hy, hxy⟩ := hto x hx
            exact ⟨y, mem_cons_of_mem _ hy, hxy⟩
        · intro y hy
          rcases mem_cons.mp hy with rfl | hy
          · exact ⟨a, by simp, hb⟩
          · obtain ⟨x, hx, hxy⟩ := hfrom y hy
            exact ⟨x, mem_cons_of_mem _ hx, hxy⟩

lemma targetsOf_build (h : WriteTargets.build reg = some w) (he : e ∈ reg.entities) :
    ∃ targets, w.targetsOf reg e = some targets ∧ w.compute reg e = some targets := by
  simp only [WriteTargets.build, Option.bind_eq_bind, Option.bind_eq_some_iff, Option.pure_def, Option.some.injEq] at h
  obtain ⟨tables, -, others, -, byEntity, hbyEntity, rfl⟩ := h
  obtain ⟨hto, hfrom⟩ := mem_of_mapM hbyEntity
  obtain ⟨entry, hentry, hcompute⟩ := hto e he
  obtain ⟨targets, htargets, rfl⟩ := Option.map_eq_some_iff.mp hcompute
  cases hlookup : byEntity.lookup e.name with
  | none => exact absurd rfl (lookup_eq_none_iff.mp hlookup _ hentry |> bne_iff_ne.mp)
  | some found =>
    obtain ⟨l₁, l₂, hsplit, -⟩ := lookup_eq_some_iff.mp hlookup
    obtain ⟨f, hf, hfound⟩ := hfrom (e.name, found) (by simp [hsplit])
    obtain ⟨targets', htargets', hpair⟩ := Option.map_eq_some_iff.mp hfound
    obtain ⟨hname, rfl⟩ := Prod.mk.inj hpair
    obtain rfl := reg.eq_of_name_eq hf he hname
    refine ⟨targets', ?_, htargets'⟩
    rw [WriteTargets.targetsOf, hlookup]

lemma visit_ok {t : CacheTarget} {next : List Entity} (h : w.visit reg f = .ok (t, next)) :
    f.sideEffects = false ∧ physicalDatabase f = some t.physical ∧ t.relation = cacheRelation f ∧
      (∀ c ∈ f.cascades, ∃ res, reg.resolve c.entity = some res) ∧ ∀ g, g ∈ next ↔ CascadesTo reg f g := by
  unfold WriteTargets.visit at h
  split at h
  · cases h
  rename_i hside
  split at h
  · cases h
  rename_i physical hphysical
  split at h
  · cases h
  rename_i children hchildren
  cases h
  obtain ⟨hto, hfrom⟩ := mem_of_mapM hchildren
  refine ⟨by simpa using hside, hphysical, rfl, fun c hc => ?_, fun g => ⟨fun hg => ?_, ?_⟩⟩
  · obtain ⟨g, -, hg⟩ := hto c hc
    obtain ⟨res, hres, -⟩ := Option.map_eq_some_iff.mp hg
    exact ⟨res, hres⟩
  · obtain ⟨c, hc, hcg⟩ := hfrom g hg
    exact ⟨c, hc, Option.map_eq_some_iff.mp hcg⟩
  · rintro ⟨c, hc, res, hres, rfl⟩
    obtain ⟨g, hg, hcg⟩ := hto c hc
    obtain rfl : res.entity = g := by simpa [hres] using hcg
    exact hg

lemma visit_error {early : Option (List CacheTarget)} (h : w.visit reg f = .error early) :
    early = w.whole f ∨ physicalDatabase f = none := by
  unfold WriteTargets.visit at h
  split at h
  · cases h
    exact .inl rfl
  split at h
  · exact .inr ‹_›
  split at h <;> cases h
  exact .inl rfl

lemma writes_touches {writes : List Entity} (h : WriteTargets.writes reg e = some writes) (s : Entity) :
    s ∈ writes ↔ Touches reg e s := by
  unfold WriteTargets.writes at h
  unfold Touches
  by_cases hk : e.kind = .procedure
  · rw [if_neg (not_not.mpr hk)] at h
    rw [if_pos hk]
    split at h
    · cases h
    obtain ⟨hto, hfrom⟩ := mem_of_mapM h
    constructor
    · intro hs
      obtain ⟨name, hname, hres⟩ := hfrom s hs
      exact ⟨name, hname, Option.map_eq_some_iff.mp hres⟩
    · rintro ⟨name, hname, res, hres, rfl⟩
      obtain ⟨s, hs, hsome⟩ := hto name hname
      obtain rfl : res.entity = s := by simpa [hres] using hsome
      exact hs
  · rw [if_pos hk] at h
    cases h
    rw [if_neg hk]
    exact mem_singleton

/-- No other entity of the registry has the entity's name: it is registered, or its name
is new. -/
def OwnName (reg : Registry) (e : Entity) : Prop := ∀ f ∈ reg.entities, f.name = e.name → f = e

lemma OwnName.eq_of_name (hname : OwnName reg e) {g : Entity} (hf : f = e ∨ f ∈ reg.entities)
    (hg : g = e ∨ g ∈ reg.entities) (h : f.name = g.name) : f = g := by
  rcases hf with rfl | hf <;> rcases hg with rfl | hg
  · rfl
  · exact (hname g hg h.symm).symm
  · exact hname f hf h
  · exact reg.eq_of_name_eq hf hg h

lemma adds_cascadesTo {f g : Entity} (h : Search.Adds (w.visit reg) f g) : CascadesTo reg f g := by
  obtain ⟨t, next, hvisit, hmem⟩ := h
  exact ((visit_ok hvisit).2.2.2.2 g).mp hmem

lemma worklist_reaches (hname : OwnName reg e) {writes : List Entity} (hwrites : WriteTargets.writes reg e = some writes)
    {fuel : Nat} {targets : List CacheTarget}
    (h : Search.worklist Entity.name (w.visit reg) fuel writes [] [] = some (.ok targets)) :
    (∀ f, Reaches reg e f → ∃ t ∈ targets, ∃ next, w.visit reg f = .ok (t, next)) ∧
      ∀ t ∈ targets, ∃ f next, Reaches reg e f ∧ w.visit reg f = .ok (t, next) := by
  obtain ⟨vs, hvs, hqueue, hclosed, hres, -⟩ := Search.worklist_ok (P := Reaches reg e)
    (fun a b ha hab => ha.tail (adds_cascadesTo hab))
    (fun s hs => ⟨s, (writes_touches hwrites s).mp hs, .refl⟩) h
  -- the entity visited under a name is the only one of it
  have hvisited : ∀ f, Reaches reg e f → f.name ∈ vs.map Entity.name → f ∈ vs := by
    intro f hf hmem
    obtain ⟨v, hv, hvf⟩ := mem_map.mp hmem
    rwa [hname.eq_of_name hf.mem (hvs v hv).mem hvf.symm]
  have hall : ∀ f, Reaches reg e f → f ∈ vs := by
    rintro f ⟨s, hs, hchain⟩
    induction hchain with
    | refl => exact hvisited s ⟨s, hs, .refl⟩ ((hqueue s ((writes_touches hwrites s).mpr hs)).resolve_left (by simp))
    | @tail b c hb hlast ih =>
      obtain ⟨t, next, hvisit, -, hnext⟩ := hclosed b ih
      have hmem := ((visit_ok hvisit).2.2.2.2 c).mpr hlast
      exact hvisited c ⟨s, hs, hb.tail hlast⟩ ((hnext c hmem).resolve_left (by simp))
  constructor
  · intro f hf
    obtain ⟨t, next, hvisit, ht, -⟩ := hclosed f (hall f hf)
    exact ⟨t, ht, next, hvisit⟩
  · intro t ht
    obtain ⟨v, hv, next, hvisit⟩ := (hres t ht).resolve_left (by simp)
    exact ⟨v, next, hvs v hv, hvisit⟩

lemma compute_eq_some (hname : OwnName reg e) (hone : OneDatabase w reg e) {targets : List CacheTarget}
    (h : w.compute reg e = some targets) :
    (∃ d, w.databaseOf e = some d ∧ targets = [{ physical := d }]) ∨
      ∃ found, targets = compactTargets found ∧
        (∀ f, Reaches reg e f → ∃ t ∈ found, ∃ next, w.visit reg f = .ok (t, next)) ∧
        ∀ t ∈ found, ∃ f next, Reaches reg e f ∧ w.visit reg f = .ok (t, next) := by
  have hwhole : w.whole e = some targets → ∃ d, w.databaseOf e = some d ∧ targets = [{ physical := d }] := by
    intro hw
    obtain ⟨d, hd, rfl⟩ := Option.map_eq_some_iff.mp hw
    exact ⟨d, hd, rfl⟩
  unfold WriteTargets.compute at h
  split at h
  · exact .inl (hwhole h)
  rename_i writes hwrites
  split at h
  · cases h
  · rename_i early hsearch
    obtain ⟨f, hf, hvisit⟩ := Search.worklist_error (P := Reaches reg e)
      (fun a b ha hab => ha.tail (adds_cascadesTo hab))
      (fun s hs => ⟨s, (writes_touches hwrites s).mp hs, .refl⟩) hsearch
    obtain ⟨hkind, hphysical⟩ := hone.reached hf
    have hsame : w.databaseOf f = w.databaseOf e := by
      rw [WriteTargets.databaseOf, if_neg hkind, hphysical]
    rcases visit_error hvisit with hearly | hnone
    · refine .inl (hwhole ?_)
      rw [← h, hearly, WriteTargets.whole, WriteTargets.whole, hsame]
    · -- the crash has no result
      unfold WriteTargets.visit at hvisit
      rw [hnone] at hvisit
      simp only [WriteTargets.whole, WriteTargets.databaseOf, if_neg hkind, hnone, Option.map_none, ite_self,
        Except.error.injEq] at hvisit
      rw [← hvisit] at h
      cases h
  · rename_i found hsearch
    cases h
    exact .inr ⟨found, rfl, worklist_reaches hname hwrites hsearch⟩

lemma compute_isSome (hkeys : ∀ f, f = e ∨ f ∈ reg.entities → '\x00' ∈ f.relationKey.toList) :
    ∃ targets, w.compute reg e = some targets := by
  have hdatabase : ∀ f, f = e ∨ f ∈ reg.entities → ∃ ts, w.whole f = some ts := by
    intro f hf
    unfold WriteTargets.whole WriteTargets.databaseOf
    split
    · obtain ⟨d, hd⟩ := database_isSome w f.datasourceName
      exact ⟨_, by rw [hd]; rfl⟩
    · obtain ⟨d, hd⟩ := physicalDatabase_isSome (hkeys f hf)
      exact ⟨_, by rw [hd]; rfl⟩
  unfold WriteTargets.compute
  split
  · exact hdatabase e (.inl rfl)
  rename_i writes hwrites
  have hstart : ∀ s ∈ writes, Reaches reg e s := fun s hs => ⟨s, (writes_touches hwrites s).mp hs, .refl⟩
  have hfuel : Search.unseen ((e :: reg.entities).map Entity.name) [] < reg.entities.length + 2 := by
    have hle := Search.unseen_le_length ((e :: reg.entities).map Entity.name) []
    simp only [length_map, length_cons] at hle
    omega
  obtain ⟨r, hr⟩ : ∃ r, Search.worklist Entity.name (w.visit reg) (reg.entities.length + 2) writes [] [] = some r :=
    Search.worklist_isSome (P := Reaches reg e) (fun a b ha hab => ha.tail (adds_cascadesTo hab))
      (fun f hf => mem_map_of_mem (by simpa using hf.mem)) hstart hfuel
  rw [hr]
  cases r with
  | ok found => exact ⟨_, rfl⟩
  | error early =>
    obtain ⟨f, hf, hvisit⟩ := Search.worklist_error (P := Reaches reg e)
      (fun a b ha hab => ha.tail (adds_cascadesTo hab)) hstart hr
    rcases visit_error hvisit with rfl | hnone
    · exact hdatabase f hf.mem
    · obtain ⟨d, hd⟩ := physicalDatabase_isSome (hkeys f hf.mem)
      rw [hd] at hnone
      cases hnone

def CacheTarget.Covers (t : CacheTarget) (f : Entity) : Prop :=
  physicalDatabase f = some t.physical ∧ (t.relation = cacheRelation f ∨ t.relation = "")

end Search

/-- A write drops the cached reads of everything it reaches, and those of the whole database
once it reaches something whose effects are not known. -/
theorem write_invalidates_every_effect (w : WriteTargets) (reg : Registry) (e : Entity) (hname : OwnName reg e)
    (hone : OneDatabase w reg e) :
    (∀ targets, w.compute reg e = some targets →
      (∀ f, Reaches reg e f → ∃ t ∈ targets, t.Covers f) ∧
      ((∃ f, Reaches reg e f ∧ Unbounded reg f) →
        ∃ d, w.databaseOf e = some d ∧ targets = [{ physical := d }])) ∧
    ((∀ f, f = e ∨ f ∈ reg.entities → '\x00' ∈ f.relationKey.toList) → ∃ targets, w.compute reg e = some targets) := by
  refine ⟨fun targets h => ?_, compute_isSome⟩
  rcases compute_eq_some hname hone h with ⟨d, hd, rfl⟩ | ⟨found, rfl, hreached, hfound⟩
  · exact ⟨fun f hf => ⟨_, mem_singleton_self _, (hone.reached hf).2.trans hd, .inr rfl⟩, fun _ => ⟨d, hd, rfl⟩⟩
  constructor
  · intro f hf
    obtain ⟨t, ht, next, hvisit⟩ := hreached f hf
    obtain ⟨-, hphysical, hrelation, -⟩ := visit_ok hvisit
    obtain ⟨t', ht', hsame, hrel⟩ := mem_compactTargets ht
    exact ⟨t', ht', hphysical.trans (by rw [hsame]), hrel.imp_left fun h => h.trans hrelation⟩
  · rintro ⟨f, hf, hunbounded⟩
    obtain ⟨t, ht, next, hvisit⟩ := hreached f hf
    obtain ⟨hside, hphysical, hrelation, hresolved, -⟩ := visit_ok hvisit
    have hderived : f.derived = true := by
      rcases hunbounded with h | h | ⟨c, hc, hnone⟩
      · simp [hside] at h
      · exact h
      · obtain ⟨res, hres⟩ := hresolved c hc
        rw [hres] at hnone
        cases hnone
    have hd : w.databaseOf e = some t.physical := (hone.reached hf).2.symm.trans hphysical
    refine ⟨t.physical, hd, compactTargets_whole (fun t' ht' => ?_) ?_⟩
    · obtain ⟨g, next', hg, hvisit'⟩ := hfound t' ht'
      have hsame := (hone.reached hg).2.symm.trans (visit_ok hvisit').2.1
      exact Option.some.inj (hsame.symm.trans hd)
    · rw [cacheRelation, if_pos hderived] at hrelation
      rwa [← hrelation]

def orders : Entity := { name := "orders", relation := "s\x00shop\x00\x00orders", cascades := [{ entity := "lines" }] }

def closeOrders : Entity := { name := "close_orders", kind := .procedure, affects := ["orders"] }

def orderBook : Registry :=
  ⟨[orders, { name := "lines", relation := "s\x00shop\x00\x00lines", derived := true, cascades := [{ entity := "orders" }] },
    closeOrders], by simp [orders, closeOrders], by decide⟩

def orderBookTargets : WriteTargets := { physical := [("default", "s\x00shop")] }

lemma orderBook_cascades {f g : Entity} (hf : f ∈ orderBook.entities) (h : CascadesTo orderBook f g) :
    g.kind ≠ .procedure ∧ physicalDatabase g = physicalDatabase f := by
  obtain ⟨c, hc, res, hres, rfl⟩ := h
  simp only [orderBook, mem_cons, not_mem_nil, or_false] at hf
  rcases hf with rfl | rfl | rfl
  · obtain rfl := mem_singleton.mp hc
    obtain rfl := Option.some.inj (hres.symm.trans rfl)
    decide
  · obtain rfl := mem_singleton.mp hc
    obtain rfl := Option.some.inj (hres.symm.trans rfl)
    decide
  · cases hc

lemma orderBook_oneDatabase : OneDatabase orderBookTargets orderBook closeOrders where
  affected := by
    rintro s - hs
    obtain ⟨name, hname, res, hres, rfl⟩ := hs
    obtain rfl := mem_singleton.mp hname
    obtain rfl := Option.some.inj (hres.symm.trans rfl)
    decide
  cascaded := by
    rintro f g (rfl | hf) h
    · exact orderBook_cascades (by simp [orderBook]) h
    · exact orderBook_cascades hf h

theorem write_invalidates_every_effect_orders :
    orderBookTargets.compute orderBook closeOrders = some [{ physical := "s\x00shop" }] ∧
      ∀ f, Reaches orderBook closeOrders f → ∃ t ∈ [({ physical := "s\x00shop" } : CacheTarget)], t.Covers f := by
  have hname : OwnName orderBook closeOrders := fun f hf h =>
    orderBook.eq_of_name_eq hf (by simp [orderBook]) h
  have hcompute : orderBookTargets.compute orderBook closeOrders = some [{ physical := "s\x00shop" }] := by decide
  exact ⟨hcompute, ((write_invalidates_every_effect orderBookTargets orderBook closeOrders hname
    orderBook_oneDatabase).1 _ hcompute).1⟩

def archived : Entity :=
  { name := "archived", relation := "s\x00shop\x00\x00archived", cascades := [{ entity := "audit" }] }

def twoDatabases : Registry :=
  ⟨[archived, { name := "audit", relation := "s\x00log\x00\x00audit", sideEffects := true }], by simp [archived], by decide⟩

/-- The whole of the second database is given up, and the entity's own relation with it. -/
theorem cascade_across_databases_dropped :
    ({} : WriteTargets).compute twoDatabases archived = some [{ physical := "s\x00log" }] ∧
      Reaches twoDatabases archived archived ∧
      ¬ ∃ t ∈ [({ physical := "s\x00log" } : CacheTarget)], t.Covers archived := by
  refine ⟨by decide, ⟨archived, rfl, .refl⟩, ?_⟩
  rintro ⟨t, ht, hphysical, -⟩
  obtain rfl := mem_singleton.mp ht
  exact absurd hphysical (by decide)

end SqlMcpServer.Tool
