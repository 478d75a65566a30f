import SqlMcpServer.Tool.Invalidation

/-!
# Assembly of relations

`bootstrap_relation.go`: assembly takes the tables configured for a datasource from the server
behind it, gives each its relation key, and links each cascading foreign key to the entity that
exposes the relation it writes.
-/

namespace SqlMcpServer.Bootstrap

open List
open Tool

structure Physical where
  server : String
  catalog : String := ""
  foldCase : Bool := false

/-- The key of `schema.table` on the server; `lower` is `strings.ToLower`. -/
def Physical.relationKey (p : Physical) (lower : String → String) (schema table : String) : String :=
  let (schema, table) := if p.foldCase then (lower schema, lower table) else (schema, table)
  p.server ++ "\x00" ++ p.catalog ++ "\x00" ++ schema ++ "\x00" ++ table

/-- A table's own keys replace the configured ones; a derived relation has none, and its
configured keys are declared. -/
def databaseKeys (configured found : Entity) : List Key :=
  if found.derived then configured.keys.map fun k => { k with declared := true } else found.keys

/-- Takes an entity's kind, keys and effects from the table the catalog finds for it, and
sets its relation key. -/
def identifyRelation (lower : String → String) (p : Physical) (lookup : String → String → Option Entity) (e : Entity) :
    Entity :=
  if e.kind = .procedure then e
  else
    match lookup e.schema e.source with
    | none => { e with relation := p.relationKey lower e.schema e.source }
    | some found =>
      { e with
        kind := found.kind, derived := found.derived, keys := databaseKeys e found, sideEffects := found.sideEffects
        cascades := found.cascades.map fun c => { c with relation := p.relationKey lower c.schema c.table }
        relation := p.relationKey lower found.schema e.source }

/-- `entities %q and %q expose the same relation %s` -/
structure SameRelation where
  other : String
  name : String
  source : String
deriving DecidableEq, Repr

def owners : List Entity → List (String × String) → Except SameRelation (List (String × String))
  | [], owner => .ok owner
  | e :: es, owner =>
    if e.kind = .procedure then owners es owner
    else
      match owner.lookup e.relation with
      | some other => .error ⟨other, e.name, e.source⟩
      | none => owners es ((e.relation, e.name) :: owner)

def linkCascades (owner : List (String × String)) (e : Entity) : Entity :=
  { e with cascades := e.cascades.map fun c => { c with entity := (owner.lookup c.relation).getD "" } }

/-- At most one entity exposes a relation; cascades are linked to the entity exposing the
relation they write. -/
def checkUniqueRelations (es : List Entity) : Except SameRelation (List Entity) :=
  (owners es []).map fun owner => es.map (linkCascades owner)

lemma physicalDatabase_of_relation {e : Entity} {p : Physical} {lower : String → String} {schema table : String}
    (h : e.relation = p.relationKey lower schema table) :
    ∃ x, e.relationKey.toList = p.server.toList ++ '\x00' :: (p.catalog.toList ++ '\x00' :: x) := by
  have hset : e.relation ≠ "" := by
    intro hempty
    have hlist := congrArg String.toList (h.symm.trans hempty)
    simp [Physical.relationKey] at hlist
  rw [Entity.relationKey, if_pos hset, h]
  exact ⟨_, by simp [Physical.relationKey]; rfl⟩

lemma physicalDatabase_congr {e f : Entity} (h : (GoStrings.splitN '\x00' 3 e.relationKey.toList).take 2 =
    (GoStrings.splitN '\x00' 3 f.relationKey.toList).take 2) : physicalDatabase e = physicalDatabase f := by
  unfold physicalDatabase
  generalize GoStrings.splitN '\x00' 3 e.relationKey.toList = ps at h
  generalize GoStrings.splitN '\x00' 3 f.relationKey.toList = qs at h
  match ps, qs with
  | [], [] | [], [_] | [_], [] | [_], [_] => rfl
  | [], _ :: _ :: _ | [_], _ :: _ :: _ | _ :: _ :: _, [] | _ :: _ :: _, [_] => simp at h
  | _ :: _ :: _, _ :: _ :: _ =>
    simp only [take_succ_cons, take_zero, List.cons.injEq, and_true] at h
    simp only [h.1, h.2]

lemma physicalDatabase_eq {e f : Entity} {p : Physical} {lower : String → String} {s₁ t₁ s₂ t₂ : String}
    (he : e.relation = p.relationKey lower s₁ t₁) (hf : f.relation = p.relationKey lower s₂ t₂) :
    physicalDatabase e = physicalDatabase f := by
  obtain ⟨x, hx⟩ := physicalDatabase_of_relation he
  obtain ⟨y, hy⟩ := physicalDatabase_of_relation hf
  apply physicalDatabase_congr
  rw [hx, hy]
  exact GoStrings.splitN_congr '\x00' p.server.toList p.catalog.toList x y

lemma owners_lookup {es : List Entity} {owner owner' : List (String × String)} (h : owners es owner = .ok owner')
    {relation name : String} (hname : owner'.lookup relation = some name) :
    owner.lookup relation = some name ∨ ∃ e ∈ es, e.kind ≠ .procedure ∧ e.relation = relation ∧ e.name = name := by
  induction es generalizing owner with
  | nil =>
    cases h
    exact .inl hname
  | cons e es ih =>
    rw [owners] at h
    split at h
    · exact (ih h).imp_right fun ⟨f, hf, hrest⟩ => ⟨f, mem_cons_of_mem _ hf, hrest⟩
    · rename_i hkind
      split at h
      · cases h
      · rcases ih h with hfound | ⟨f, hf, hrest⟩
        · rw [lookup_cons] at hfound
          by_cases hrel : relation = e.relation
          · rw [beq_iff_eq.mpr hrel] at hfound
            exact .inr ⟨e, by simp, hkind, hrel.symm, Option.some.inj hfound⟩
          · rw [beq_eq_false_iff_ne.mpr hrel] at hfound
            exact .inl hfound
        · exact .inr ⟨f, mem_cons_of_mem _ hf, hrest⟩

lemma id_dotted (datasource schema name : String) : ∃ a, Entity.id datasource schema name = a ++ "." ++ name := by
  unfold Entity.id
  simp only
  generalize (if datasource = "" then "default" else datasource) = d
  split
  · exact ⟨d, rfl⟩
  · exact ⟨d ++ "." ++ schema, rfl⟩

lemma mem_referencesOf {datasource schema localName ref : String} (h : ref ∈ Entity.referencesOf datasource schema localName) :
    ref = localName ∨ ∃ a, ref = a ++ "." ++ localName := by
  unfold Entity.referencesOf at h
  simp only at h
  generalize (if datasource = "" then "default" else datasource) = d at h
  have hid := id_dotted d schema localName
  split at h
  · simp only [mem_cons, not_mem_nil, or_false] at h
    exact h.imp_right fun h => ⟨d, h⟩
  split at h <;> simp only [mem_cons, not_mem_nil, or_false] at h
  · rcases h with h | h | h
    · exact .inl h
    · exact .inr ⟨schema, h⟩
    · exact .inr (h ▸ hid)
  · rcases h with h | h | h | h
    · exact .inl h
    · exact .inr ⟨schema, h⟩
    · exact .inr ⟨d, h⟩
    · exact .inr (h ▸ hid)

lemma empty_notMem_references {e : Entity} (hname : e.name ≠ "") : "" ∉ e.references := by
  intro h
  unfold Entity.references at h
  split at h
  · exact hname (mem_singleton.mp h).symm
  · rename_i hlocal
    rcases mem_referencesOf h with h | ⟨a, h⟩
    · exact hlocal h.symm
    · simpa using congrArg String.toList h

lemma resolve_empty (reg : Registry) : reg.resolve "" = none := by
  have hname : reg.byName "" = none := by
    rw [Registry.byName, find?_eq_none]
    intro e he
    simpa using reg.named e he
  have href : reg.byRef "" = [] := by
    rw [Registry.byRef, flatMap_eq_nil_iff]
    intro e he
    rw [map_eq_nil_iff, filter_eq_nil_iff]
    intro ref href hempty
    exact empty_notMem_references (reg.named e he) (by simpa using beq_iff_eq.mp hempty ▸ href)
  rw [Registry.resolve, hname, href]

/-- An entity's relation key, and those of its cascades, are on the one server of its datasource. -/
def OnServer (lower : String → String) (p : Physical) (e : Entity) : Prop :=
  (∃ schema table, e.relation = p.relationKey lower schema table) ∧
    ∀ c ∈ e.cascades, ∃ schema table, c.relation = p.relationKey lower schema table

lemma onServer_identifyRelation {lower : String → String} {p : Physical} {lookup : String → String → Option Entity}
    {e : Entity} (hkind : e.kind ≠ .procedure) (hcascades : e.cascades = []) :
    OnServer lower p (identifyRelation lower p lookup e) := by
  unfold identifyRelation
  rw [if_neg hkind]
  split
  · exact ⟨⟨_, _, rfl⟩, by simp [hcascades]⟩
  · rename_i found hfound
    refine ⟨⟨_, _, rfl⟩, fun c hc => ?_⟩
    obtain ⟨c', -, rfl⟩ := mem_map.mp hc
    exact ⟨_, _, rfl⟩

/-- The entities of a configuration, by the server behind their datasource and what its
catalog finds. -/
structure Source where
  physical : Physical
  lookup : String → String → Option Entity
  entities : List Entity
  uncascaded : ∀ e ∈ entities, e.cascades = []

def assemble (lower : String → String) (sources : List Source) : Except SameRelation (List Entity) :=
  checkUniqueRelations (sources.flatMap fun s => s.entities.map (identifyRelation lower s.physical s.lookup))

/-- Every cascade of an assembled registry leads to a table of the same database. -/
theorem assemble_cascades {lower : String → String} {sources : List Source} {reg : Registry}
    (h : assemble lower sources = .ok reg.entities) {f g : Entity} (hf : f ∈ reg.entities) (hfg : CascadesTo reg f g) :
    g.kind ≠ .procedure ∧ physicalDatabase g = physicalDatabase f := by
  simp only [assemble, checkUniqueRelations] at h
  set es := sources.flatMap fun s => s.entities.map (identifyRelation lower s.physical s.lookup) with hes
  cases howners : owners es [] with
  | error err => simp [howners, Except.map] at h
  | ok owner =>
    have hlinked : es.map (linkCascades owner) = reg.entities := by simpa [howners, Except.map] using h
    obtain ⟨e, he, rfl⟩ := mem_map.mp (hlinked ▸ hf)
    obtain ⟨c, hc, res, hres, rfl⟩ := hfg
    obtain ⟨c', hc', rfl⟩ := mem_map.mp hc
    -- the entity the cascade was linked to owns its relation
    cases howner : owner.lookup c'.relation with
    | none =>
      simp only [howner, Option.getD_none, resolve_empty] at hres
      cases hres
    | some name =>
      obtain ⟨o, ho, hkind, hrelation, hname⟩ := (owners_lookup howners howner).resolve_left (by simp)
      have hmem : linkCascades owner o ∈ reg.entities := hlinked ▸ mem_map_of_mem ho
      have hbyName : reg.byName name = some (linkCascades owner o) := by
        rw [← hname]
        exact reg.byName_of_mem hmem
      simp only [howner, Option.getD_some, Registry.resolve, hbyName, Option.some.injEq] at hres
      subst hres
      refine ⟨hkind, ?_⟩
      obtain ⟨s, hs, hes'⟩ := mem_flatMap.mp he
      obtain ⟨e₀, he₀, rfl⟩ := mem_map.mp hes'
      have hproc : e₀.kind ≠ .procedure := by
        intro hproc
        simp [identifyRelation, hproc, s.uncascaded e₀ he₀] at hc'
      have hserver : OnServer lower s.physical (identifyRelation lower s.physical s.lookup e₀) :=
        onServer_identifyRelation hproc (s.uncascaded e₀ he₀)
      obtain ⟨⟨s₁, t₁, h₁⟩, hcs⟩ := hserver
      obtain ⟨s₂, t₂, h₂⟩ := hcs c' hc'
      have howned : (linkCascades owner o).relation = s.physical.relationKey lower s₂ t₂ := hrelation.trans h₂
      exact physicalDatabase_eq howned h₁

/-- In an assembled registry a write through a table drops the cached reads of all it reaches. -/
theorem assembled_writes_covered (lower : String → String) (sources : List Source) (es : List Entity) (reg : Registry)
    (w : WriteTargets) (e : Entity) (hassemble : assemble lower sources = .ok es) (hreg : newRegistry es = .ok reg)
    (hbuild : WriteTargets.build reg = some w) (he : e ∈ reg.entities) (hkind : e.kind ≠ .procedure) :
    ∃ targets, w.targetsOf reg e = some targets ∧ ∀ f, Reaches reg e f → ∃ t ∈ targets, t.Covers f := by
  obtain rfl : reg.entities = es := by
    unfold newRegistry at hreg
    split at hreg <;> cases hreg
    rfl
  have hone : OneDatabase w reg e :=
    ⟨fun _ hproc => absurd hproc hkind, fun f g hf => assemble_cascades hassemble (hf.elim (fun h => h ▸ he) id)⟩
  obtain ⟨targets, htargets, hcompute⟩ := targetsOf_build hbuild he
  refine ⟨targets, htargets, fun f hf => ?_⟩
  rcases compute_eq_some (fun g hg h => reg.eq_of_name_eq hg he h) hone hcompute with
    ⟨d, hd, rfl⟩ | ⟨found, rfl, hreached, -⟩
  · exact ⟨_, mem_singleton_self _, (hone.reached hf).2.trans hd, .inr rfl⟩
  · obtain ⟨t, ht, next, hvisit⟩ := hreached f hf
    obtain ⟨-, hphysical, hrelation, -⟩ := visit_ok hvisit
    obtain ⟨t', ht', hsame, hrel⟩ := mem_compactTargets ht
    exact ⟨t', ht', hphysical.trans (by rw [hsame]), hrel.imp_left fun h => h.trans hrelation⟩

/-- Orders, whose lines go with them. -/
def shop : Source where
  physical := { server := "db" }
  lookup := fun _ table => if table = "orders" then some { name := "", cascades := [{ table := "lines" }] } else none
  entities := [{ name := "orders", source := "orders" }, { name := "lines", source := "lines" }]
  uncascaded := by simp

theorem assembled_writes_covered_shop : ∃ es reg w, assemble id [shop] = .ok es ∧ newRegistry es = .ok reg ∧
    WriteTargets.build reg = some w ∧ ∀ e ∈ reg.entities,
      ∃ targets, w.targetsOf reg e = some targets ∧ ∀ f, Reaches reg e f → ∃ t ∈ targets, t.Covers f := by
  obtain ⟨es, hes⟩ : ∃ es, assemble id [shop] = .ok es := ⟨_, rfl⟩
  obtain ⟨reg, hreg, hkinds⟩ : ∃ reg, newRegistry es = .ok reg ∧ ∀ e ∈ reg.entities, e.kind ≠ .procedure := by
    cases hes
    exact ⟨_, rfl, by decide⟩
  obtain ⟨w, hw⟩ : ∃ w, WriteTargets.build reg = some w := by
    cases hes
    cases hreg
    exact ⟨_, rfl⟩
  exact ⟨es, reg, w, hes, hreg, hw, fun e he => assembled_writes_covered id [shop] es reg w e hes hreg hw he (hkinds e he)⟩

end SqlMcpServer.Bootstrap
