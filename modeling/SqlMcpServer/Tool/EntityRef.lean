import SqlMcpServer.Entity

/-!
# Naming entities to a caller

`Match`, `ShortName` and `uniqueAmong` of the registry, and `resolveEntityRef`: what a reference
names among the entities a caller can use. `visible` is what `UsableBy` answers for the caller.
-/

namespace SqlMcpServer
open List

lemma Entity.references_nodup (e : Entity) : e.references.Nodup := by
  have hlength (p s : String) : (p ++ "." ++ s).length = p.length + 1 + s.length := by
    rw [String.length_append, String.length_append]
    rfl
  have hne {a b : String} (h : a.length < b.length) : a ≠ b := by
    rintro rfl
    exact Nat.lt_irrefl _ h
  have hlonger (p s : String) : s ≠ p ++ "." ++ s := hne (by rw [hlength]; omega)
  -- every reference but the first is the local name with a different qualifier
  have hqualified {l : String} {ps : List String} (h : ps.Nodup) : (l :: ps.map (· ++ "." ++ l)).Nodup := by
    refine nodup_cons.mpr ⟨?_, h.map fun p q hpq => ?_⟩
    · intro hl
      obtain ⟨p, -, hp⟩ := mem_map.mp hl
      exact hlonger p l hp.symm
    · rwa [String.append_left_inj, String.append_left_inj] at hpq
  unfold references referencesOf id
  dsimp only
  generalize hd : (if e.dataSource = "" then "default" else e.dataSource) = d
  have hset : d ≠ "" := by
    rw [← hd]
    split_ifs with h
    · decide
    · exact h
  rw [if_neg hset]
  split_ifs with hlocal hschema hsame
  · exact nodup_singleton _
  · exact hqualified (nodup_singleton d)
  · have hall : [e.schema, d ++ "." ++ e.schema].Nodup := by simpa using hlonger d e.schema
    exact hqualified hall
  · have hid : d ≠ d ++ "." ++ e.schema := hne (by rw [hlength]; omega)
    have hall : [e.schema, d, d ++ "." ++ e.schema].Nodup := by
      simpa using ⟨⟨hsame, hlonger d e.schema⟩, hid⟩
    exact hqualified hall

namespace Registry
variable (r : Registry)

def matchRef (ref : String) : List Entity :=
  match r.byName ref with
  | some e => [e]
  | none => (r.byRef ref).filterMap r.byName

def uniqueAmong (ref name : String) (visible : Entity → Bool) : Bool :=
  !((r.byName ref).isSome && ref ≠ name) &&
    (r.byRef ref).all fun other => !(other ≠ name && (r.byName other).any visible)

/-- The shortest reference that names `e` alone among the visible entities. -/
def shortName (e : Entity) (visible : Entity → Bool) : String :=
  (e.references.dropLast.find? fun ref => r.uniqueAmong ref e.name visible).getD (e.references.getLastD "")

lemma byRef_eq (ref : String) : r.byRef ref = (r.entities.filter fun e => ref ∈ e.references).map (·.name) := by
  have hone (e : Entity) : (e.references.filter (· == ref)).map (fun _ => e.name) = if ref ∈ e.references then [e.name] else [] := by
    rw [filter_beq, e.references_nodup.count]
    split_ifs <;> rfl
  rw [byRef]
  simp only [hone]
  induction r.entities with
  | nil => rfl
  | cons e es ih =>
    rw [flatMap_cons, ih, filter_cons]
    by_cases href : ref ∈ e.references <;> simp [href]

lemma matchRef_eq {ref : String} (h : r.byName ref = none) : r.matchRef ref = r.entities.filter fun e => ref ∈ e.references := by
  have hfound : ∀ e ∈ r.entities.filter fun e => ref ∈ e.references, r.byName e.name = some e :=
    fun e he => r.byName_of_mem (mem_filter.mp he).1
  rw [Registry.matchRef, h]
  dsimp only
  rw [byRef_eq, filterMap_map]
  exact (filterMap_congr hfound).trans filterMap_some

lemma matchRef_nodup (ref : String) : (r.matchRef ref).Nodup := by
  cases h : r.byName ref with
  | some e =>
    rw [Registry.matchRef, h]
    exact nodup_singleton e
  | none =>
    rw [r.matchRef_eq h]
    exact r.nodup.of_map.filter _

lemma matchRef_name {e : Entity} (he : e ∈ r.entities) : r.matchRef e.name = [e] := by
  rw [Registry.matchRef, r.byName_of_mem he]

lemma matchRef_mem {ref : String} {e : Entity} (h : e ∈ r.matchRef ref) : e ∈ r.entities := by
  cases hn : r.byName ref with
  | some e' =>
    rw [Registry.matchRef, hn] at h
    rw [mem_singleton.mp h]
    exact (byName_mem hn).1
  | none =>
    rw [r.matchRef_eq hn] at h
    exact (mem_filter.mp h).1

/-- A reference that is unique among the visible entities matches one of them. -/
lemma filter_matchRef_of_unique {ref : String} {e : Entity} {visible : Entity → Bool} (he : e ∈ r.entities) (hv : visible e = true)
    (href : ref ∈ e.references) (h : r.uniqueAmong ref e.name visible = true) : (r.matchRef ref).filter visible = [e] := by
  rw [uniqueAmong, Bool.and_eq_true, all_eq_true] at h
  obtain ⟨hname, hothers⟩ := h
  cases hn : r.byName ref with
  | some e' =>
    have hself : ref = e.name := by simpa [hn] using hname
    rw [hself, r.matchRef_name he]
    simp [hv]
  | none =>
    have hmatch : e ∈ (r.matchRef ref).filter visible := by
      rw [r.matchRef_eq hn]
      simp [he, href, hv]
    have honly : ∀ e' ∈ (r.matchRef ref).filter visible, e' = e := by
      intro e' he'
      rw [r.matchRef_eq hn] at he'
      obtain ⟨hentry, hv'⟩ := mem_filter.mp he'
      have hin := (mem_filter.mp hentry).1
      have hother := hothers e'.name (by rw [byRef_eq]; exact mem_map_of_mem hentry)
      rw [r.byName_of_mem hin, Option.any_some, hv'] at hother
      exact r.eq_of_name_eq hin he (by simpa using hother)
    exact perm_singleton.mp ((perm_ext_iff_of_nodup ((r.matchRef_nodup ref).filter _) (nodup_singleton e)).mpr fun e' => by
      rw [mem_singleton]
      exact ⟨honly e', fun h => h ▸ hmatch⟩)

end Registry

structure AmbiguousEntityError where
  ref : String
  candidates : List String
deriving DecidableEq, Repr

/-- The name of the entity `ref` names among those the caller can use; `ref` itself when it names
none. -/
def resolveEntityRef (r : Registry) (visible : Entity → Bool) (ref : String) : Except AmbiguousEntityError String :=
  match r.matchRef ref with
  | [e] => .ok e.name
  | es =>
    match es.filter visible with
    | [] => .ok ref
    | [e] => .ok e.name
    | usable => .error ⟨ref, usable.map fun e => r.shortName e visible⟩

section Resolving
variable {r : Registry} {visible : Entity → Bool}

lemma resolveEntityRef_of_filter {ref : String} {e : Entity} (h : (r.matchRef ref).filter visible = [e]) :
    resolveEntityRef r visible ref = .ok e.name := by
  unfold resolveEntityRef
  split
  next e' he =>
    rw [he] at h
    rw [mem_singleton.mp ((filter_sublist (p := visible)).mem (h ▸ mem_singleton_self e : e ∈ [e'].filter visible))]
  next => rw [h]

lemma resolveEntityRef_error {ref : String} {err : AmbiguousEntityError} (h : resolveEntityRef r visible ref = .error err) :
    err = ⟨ref, ((r.matchRef ref).filter visible).map fun e => r.shortName e visible⟩ := by
  unfold resolveEntityRef at h
  split at h
  · cases h
  · split at h
    · cases h
    · cases h
    · cases h
      rfl

lemma resolve_shortName {e : Entity} (hlast : e.references.getLast? = some e.name) (he : e ∈ r.entities) (hv : visible e = true) :
    resolveEntityRef r visible (r.shortName e visible) = .ok e.name := by
  apply resolveEntityRef_of_filter
  unfold Registry.shortName
  cases hfound : e.references.dropLast.find? fun ref => r.uniqueAmong ref e.name visible with
  | some ref =>
    have href := (dropLast_sublist _).mem (mem_of_find?_eq_some hfound)
    have hunique := find?_some hfound
    exact r.filter_matchRef_of_unique he hv href hunique
  | none =>
    rw [Option.getD_none, getLastD_eq_getLast?, hlast, Option.getD_some, r.matchRef_name he]
    simp [hv]

end Resolving

/-- The name an entity is shown to a caller by resolves back to it. A reference that is ambiguous
to a caller comes with one name for each usable entity it matches, each of which resolves to
that entity. -/
theorem shown_names_resolve (r : Registry) (hlast : ∀ e ∈ r.entities, e.references.getLast? = some e.name) (visible : Entity → Bool) :
    (∀ e ∈ r.entities, visible e = true → resolveEntityRef r visible (r.shortName e visible) = .ok e.name) ∧
    ∀ ref err, resolveEntityRef r visible ref = .error err →
      err.ref = ref ∧ err.candidates = ((r.matchRef ref).filter visible).map (fun e => r.shortName e visible) ∧
      ((r.matchRef ref).filter visible).Nodup ∧ err.candidates.Nodup ∧
      ∀ e ∈ (r.matchRef ref).filter visible, e ∈ r.entities ∧ resolveEntityRef r visible (r.shortName e visible) = .ok e.name := by
  have hshown : ∀ e ∈ r.entities, visible e = true → resolveEntityRef r visible (r.shortName e visible) = .ok e.name :=
    fun e he hv => resolve_shortName (hlast e he) he hv
  refine ⟨hshown, ?_⟩
  intro ref err h
  have hnodup := (r.matchRef_nodup ref).filter visible
  have heach : ∀ e ∈ (r.matchRef ref).filter visible, e ∈ r.entities ∧ resolveEntityRef r visible (r.shortName e visible) = .ok e.name := by
    intro e he
    obtain ⟨hmatch, hv⟩ := mem_filter.mp he
    exact ⟨r.matchRef_mem hmatch, hshown e (r.matchRef_mem hmatch) hv⟩
  rw [resolveEntityRef_error h]
  refine ⟨rfl, rfl, hnodup, ?_, heach⟩
  -- entities with one shown name would resolve to one entity
  refine hnodup.map_on fun e he f hf hsame => ?_
  have hnames := (heach e he).2
  rw [hsame, (heach f hf).2, Except.ok.injEq] at hnames
  exact r.eq_of_name_eq (heach e he).1 (heach f hf).1 hnames.symm

def twoOrders : Registry where
  entities := [{ name := "default.shop.orders", localName := "orders", schema := "shop" },
    { name := "default.store.orders", localName := "orders", schema := "store" }]
  named := by decide
  nodup := by decide

theorem shown_names_resolve_twoOrders :
    resolveEntityRef twoOrders (fun _ => true) "orders" = .error ⟨"orders", ["shop.orders", "store.orders"]⟩ ∧
      ∀ e ∈ twoOrders.entities, resolveEntityRef twoOrders (fun _ => true) (twoOrders.shortName e fun _ => true) = .ok e.name :=
  ⟨by decide +kernel, fun e he => (shown_names_resolve twoOrders (by decide +kernel) fun _ => true).1 e he rfl⟩

end SqlMcpServer
