import SqlMcpServer.Configplan.Frames
import SqlMcpServer.Rbac.Covering

namespace SqlMcpServer.Configplan

open List Option

/-- A meaning of row filters: the same JSON selects the same rows. -/
structure Selection (ρ : Type) where
  selects : FilterConfig → ρ → Prop
  congr : ∀ a b, sameRows a b = true → ∀ r, selects a r ↔ selects b r

/-- An action that reads and writes fields of a row. -/
structure Use (ρ : Type) where
  action : String
  read : List String
  write : List String
  row : ρ

def FieldACLConfig.permissions (acl : FieldACLConfig) : FieldPermissions := ⟨acl.read, acl.write.getD []⟩

def FieldsCover (visible : List Attribute) (fields : Option FieldACLConfig) (read write : List String) : Prop :=
  Rbac.Covers visible { id := "", actions := [], fields := fields.map FieldACLConfig.permissions } read write

section
variable {ρ : Type} (S : Selection ρ) (visible : List Attribute)

def GrantConfig.Covers (g : GrantConfig) (u : Use ρ) : Prop :=
  u.action ∈ g.actions ∧ FieldsCover visible g.fields u.read u.write ∧ S.selects g.rows u.row

def Evaluation.Covered (ev : Evaluation) (q : Principal) (id : String) (u : Use ρ) : Prop :=
  ∃ g ∈ ev.cfg.grantsOf q, entityNaming.idOf ev.cfg.names g.entity = some id ∧ g.Covers S visible u

lemma fieldsCover_iff {fields : Option FieldACLConfig} {read write : List String} :
    FieldsCover visible fields read write ↔ ∀ acl, fields = some acl →
      (∀ f ∈ read, Rbac.Lists visible acl.read f) ∧ ∀ f ∈ write, Rbac.Lists visible (acl.write.getD []) f := by
  cases fields with
  | none => simp [FieldsCover, Rbac.Covers]
  | some acl => simp [FieldsCover, Rbac.Covers, FieldACLConfig.permissions]

lemma fieldsCover_of_sameFields {a b : Option FieldACLConfig} {read write : List String} (h : sameFields a b = true) :
    FieldsCover visible a read write ↔ FieldsCover visible b read write := by
  rw [fieldsCover_iff, fieldsCover_iff]
  cases a with
  | none => cases b with
    | none => exact Iff.rfl
    | some b => cases h
  | some a => cases b with
    | none => cases h
    | some b =>
      obtain ⟨hread, hwrite⟩ : a.read = b.read ∧ a.write.getD [] = b.write.getD [] := by simpa [sameFields] using h
      simp [hread, hwrite]

lemma lists_mono {listed listed' : List String} {f : String} (hsub : ∀ f ∈ listed, f ∈ listed')
    (h : Rbac.Lists visible listed f) : Rbac.Lists visible listed' f := by
  rcases h with h | ⟨a, ha, hname, l, hl, hl'⟩
  · exact .inl (hsub f h)
  · exact .inr ⟨a, ha, hname, l, hsub l hl, hl'⟩

lemma fieldsCover_mono {a b : FieldACLConfig} {read write : List String} (hread : ∀ f ∈ a.read, f ∈ b.read)
    (hwrite : ∀ f ∈ a.write.getD [], f ∈ b.write.getD []) (h : FieldsCover visible (some a) read write) :
    FieldsCover visible (some b) read write := by
  rw [fieldsCover_iff] at h ⊢
  obtain ⟨hr, hw⟩ := h a rfl
  intro acl hacl
  obtain rfl := some.inj hacl
  exact ⟨fun f hf => lists_mono visible hread (hr f hf), fun f hf => lists_mono visible hwrite (hw f hf)⟩

lemma covers_mergeGrant {g h : GrantConfig} {u : Use ρ} (hm : mergeable g h = true) :
    (mergeGrant g h).Covers S visible u ↔ h.Covers S visible u ∨ g.Covers S visible u := by
  obtain ⟨hfields, hrows⟩ : sameFields h.fields g.fields = true ∧ sameRows h.rows g.rows = true := by
    simpa [mergeable] using hm
  have hactions : u.action ∈ (mergeGrant g h).actions ↔ u.action ∈ h.actions ∨ u.action ∈ g.actions := by
    simp only [mergeGrant, mem_append, mem_filter, decide_eq_true_eq]
    tauto
  unfold GrantConfig.Covers
  rw [hactions, ← fieldsCover_of_sameFields visible hfields, ← S.congr _ _ hrows]
  change (_ ∧ FieldsCover visible h.fields _ _ ∧ S.selects h.rows _) ↔ _
  tauto

lemma widenable_iff {g h : GrantConfig} (hw : widenable g h = true) : ∃ a b, h.fields = some a ∧ g.fields = some b ∧
    sameRows h.rows g.rows = true ∧ h.actions.Perm g.actions ∧ (a.write.isNone = b.write.isNone) ∧
    (∀ write, a.write = some write → write = a.read) ∧ ∀ f ∈ a.read, f ∈ b.read := by
  unfold widenable at hw
  split at hw
  · rename_i a b ha hb
    simp only [Bool.and_eq_true, decide_eq_true_eq, beq_iff_eq, List.all_eq_true] at hw
    obtain ⟨⟨⟨⟨hrows, hactions⟩, hnone⟩, hread⟩, hsub⟩ := hw
    refine ⟨a, b, ha, hb, hrows, hactions, hnone, ?_, hsub⟩
    intro write hwrite
    simpa [hwrite] using hread
  · cases hw

def WritesRead (g : GrantConfig) : Prop := ∀ acl, g.fields = some acl → ∀ write, acl.write = some write → write = acl.read

lemma covers_widenGrant {g h : GrantConfig} {u : Use ρ} (hg : WritesRead g) (hw : widenable g h = true) :
    (widenGrant g h).Covers S visible u ↔ h.Covers S visible u ∨ g.Covers S visible u := by
  obtain ⟨a, b, ha, hb, hrows, hactions, hnone, hread, hsub⟩ := widenable_iff hw
  have hwrite : ∀ f ∈ a.write.getD [], f ∈ b.write.getD [] := by
    cases hwa : a.write with
    | none => simp
    | some write =>
      obtain ⟨write', hwb⟩ : ∃ write', b.write = some write' := by
        cases hwb : b.write with
        | none => rw [hwa, hwb] at hnone; cases hnone
        | some write' => exact ⟨write', rfl⟩
      rw [hwb, getD_some, getD_some, hread write hwa, hg b hb write' hwb]
      exact hsub
  have hwide : (widenGrant g h).Covers S visible u ↔ g.Covers S visible u := by
    unfold GrantConfig.Covers
    rw [← S.congr _ _ hrows, ← hactions.mem_iff]
    exact Iff.rfl
  rw [hwide]
  refine ⟨.inr, ?_⟩
  rintro (⟨haction, hfields, hrow⟩ | h)
  · refine ⟨hactions.mem_iff.mp haction, ?_, (S.congr _ _ hrows _).mp hrow⟩
    rw [hb]
    rw [ha] at hfields
    exact fieldsCover_mono visible hsub hwrite hfields
  · exact h

end

section
variable {α : Type} {f : α → Option α}

lemma lookmap_split {l : List α} (h : ∃ x ∈ l, (f x).isSome) : ∃ l₁ x y l₂,
    l = l₁ ++ x :: l₂ ∧ (∀ z ∈ l₁, f z = none) ∧ f x = some y ∧ l.lookmap f = l₁ ++ y :: l₂ := by
  induction l with
  | nil =>
    obtain ⟨x, hx, -⟩ := h
    cases hx
  | cons z l ih =>
    cases hz : f z with
    | some y => exact ⟨[], z, y, l, rfl, by simp, hz, lookmap_cons_some f l hz⟩
    | none =>
      have hrest : ∃ x ∈ l, (f x).isSome := by
        obtain ⟨x, hx, hsome⟩ := h
        rcases mem_cons.mp hx with rfl | hx
        · rw [hz] at hsome
          cases hsome
        · exact ⟨x, hx, hsome⟩
      obtain ⟨l₁, x, y, l₂, rfl, hnone, hx, hmap⟩ := ih hrest
      refine ⟨z :: l₁, x, y, l₂, rfl, ?_, hx, ?_⟩
      · intro w hw
        rcases mem_cons.mp hw with rfl | hw
        · exact hz
        · exact hnone w hw
      · rw [lookmap_cons_none f _ hz, hmap]
        rfl

end

section
variable {ρ : Type} (S : Selection ρ) (visible : List Attribute) (names : List EntityName)

def HeldCover (held : List Held) (id : String) (u : Use ρ) : Prop :=
  ∃ h ∈ held, entityNaming.idOf names h.grant.entity = some id ∧ h.grant.Covers S visible u

def Resolved (held : List Held) : Prop :=
  ∀ h ∈ held, ∀ id ∈ entityNaming.ids names, h.on = some id → entityNaming.idOf names h.grant.entity = some id

variable {S visible names} {held : List Held} {id : String} {g : GrantConfig}

lemma heldCover_append {l m : List Held} {u : Use ρ} : HeldCover S visible names (l ++ m) id u ↔
    HeldCover S visible names l id u ∨ HeldCover S visible names m id u := by
  simp only [HeldCover, mem_append, or_and_right, exists_or]

lemma heldCover_cons {h : Held} {l : List Held} {u : Use ρ} : HeldCover S visible names (h :: l) id u ↔
    (entityNaming.idOf names h.grant.entity = some id ∧ h.grant.Covers S visible u) ∨ HeldCover S visible names l id u := by
  simp only [HeldCover, mem_cons, or_and_right, exists_or, exists_eq_left]

lemma editHeld_exact {applies : GrantConfig → Bool} {f : GrantConfig → GrantConfig} (hid : id ∈ entityNaming.ids names)
    (hentity : ∀ h, (f h).entity = h.entity)
    (hcovers : ∀ h, applies h = true → ∀ u, (f h).Covers S visible u ↔ h.Covers S visible u ∨ g.Covers S visible u)
    (hany : ∃ h ∈ held, h.on = some id ∧ applies h.grant = true) (hres : Resolved names held) :
    Resolved names (editHeld id applies f held) ∧ ∀ id' u, HeldCover S visible names (editHeld id applies f held) id' u ↔
      HeldCover S visible names held id' u ∨ id' = id ∧ g.Covers S visible u := by
  obtain ⟨l₁, x, y, l₂, rfl, -, hx, hmap⟩ := lookmap_split
    (f := fun h : Held => if h.on = some id ∧ applies h.grant then some { h with grant := f h.grant } else none)
    (by
      obtain ⟨h, hmem, hon⟩ := hany
      exact ⟨h, hmem, by simp [hon]⟩)
  obtain ⟨⟨hon, happlies⟩, rfl⟩ : (x.on = some id ∧ applies x.grant = true) ∧ { x with grant := f x.grant } = y := by
    simpa using hx
  rw [show editHeld id applies f (l₁ ++ x :: l₂) = l₁ ++ { x with grant := f x.grant } :: l₂ from hmap]
  have hnamed : entityNaming.idOf names x.grant.entity = some id := hres x (by simp) id hid hon
  constructor
  · intro h hmem id' hid' hon'
    rcases mem_append.mp hmem with hmem | hmem
    · exact hres h (mem_append_left _ hmem) id' hid' hon'
    rcases mem_cons.mp hmem with rfl | hmem
    · rw [hentity]
      exact hres x (by simp) id' hid' hon'
    · exact hres h (by simp [hmem]) id' hid' hon'
  · intro id' u
    rw [heldCover_append, heldCover_cons, heldCover_append, heldCover_cons, hentity, hnamed, hcovers _ happlies,
      some.injEq, eq_comm]
    tauto

lemma find_placed {id : String} {g : GrantConfig} {held : List Held} {h : Held}
    (hfind : (held.find? fun h => h.on = some id ∧ mergeable g h.grant) = some h) :
    h ∈ held ∧ h.on = some id ∧ mergeable g h.grant = true :=
  ⟨mem_of_find?_eq_some hfind, by simpa using find?_some hfind⟩

variable (S visible) in
lemma placeGrant_exact (wildcard : Bool) (hid : id ∈ entityNaming.ids names) (hentity : g.entity = id)
    (hg : WritesRead g) (hres : Resolved names held) :
    Resolved names (placeGrant wildcard id g held).1 ∧
      ∀ id' u, HeldCover S visible names (placeGrant wildcard id g held).1 id' u ↔
        HeldCover S visible names held id' u ∨ id' = id ∧ g.Covers S visible u := by
  have hown : entityNaming.idOf names g.entity = some id := by rw [hentity, Naming.idOf_of_mem_ids hid]
  unfold placeGrant
  split
  · rename_i h hfind
    exact editHeld_exact (g := g) hid (fun _ => rfl)
      (fun h hm u => covers_mergeGrant S visible hm) ⟨h, find_placed hfind⟩ hres
  · split_ifs with hwide
    · have hany : ∃ h ∈ held, h.on = some id ∧ widenable g h.grant = true := by simpa using hwide.2
      exact editHeld_exact (g := g) hid (fun _ => rfl)
        (fun h hw u => covers_widenGrant S visible hg hw) hany hres
    · constructor
      · intro h hmem id' hid' hon
        rcases mem_append.mp hmem with hmem | hmem
        · exact hres h hmem id' hid' hon
        · obtain rfl := mem_singleton.mp hmem
          exact hown.trans hon
      · intro id' u
        rw [heldCover_append, heldCover_cons, hown, some.injEq, eq_comm]
        simp [HeldCover]

lemma placeGrant_unchanged {wildcard : Bool} (h : (placeGrant wildcard id g held).2 = false) :
    (placeGrant wildcard id g held).1 = held := by
  unfold placeGrant at h ⊢
  split at h
  · rename_i x hfind
    obtain ⟨l₁, y, z, l₂, rfl, hnone, hy, hmap⟩ := lookmap_split
      (f := fun h : Held => if h.on = some id ∧ mergeable g h.grant then some { h with grant := mergeGrant g h.grant } else none)
      ⟨x, (find_placed hfind).1, by simp [(find_placed hfind).2]⟩
    obtain ⟨hcond, rfl⟩ : (y.on = some id ∧ mergeable g y.grant = true) ∧ { y with grant := mergeGrant g y.grant } = z := by
      simpa using hy
    have hyx : y = x := by
      rw [find?_append, find?_eq_none.mpr ?_, none_or, find?_cons_of_pos (by simpa using hcond)] at hfind
      · exact some.inj hfind
      · intro w hw hcontra
        have := hnone w hw
        simp [show w.on = some id ∧ mergeable g w.grant = true by simpa using hcontra] at this
    have hsame : mergeGrant g y.grant = y.grant := by
      have hnil : (g.actions.filter fun a => a ∉ y.grant.actions) = [] := by
        rw [filter_eq_nil_iff, hyx]
        simpa using h
      rw [mergeGrant, hnil, append_nil]
    exact hmap.trans (by rw [hsame])
  · split_ifs at h

end

lemma grantFor_entity {T : GoText} {rule : GrantRule} {id : String} {e : EntityConfig} {g : GrantConfig}
    (h : grantFor T rule id e = some g) : g.entity = id ∧ WritesRead g := by
  unfold grantFor at h
  dsimp only at h
  split at h
  · cases h
  split at h
  · obtain rfl := some.inj h
    exact ⟨rfl, fun acl hacl => by cases hacl⟩
  split at h
  · cases h
  · obtain rfl := some.inj h
    refine ⟨rfl, fun acl hacl write hwrite => ?_⟩
    obtain rfl := some.inj hacl
    dsimp only at hwrite ⊢
    split at hwrite
    · exact (some.inj hwrite).symm
    · cases hwrite

section
variable (T : GoText) {ρ : Type} (S : Selection ρ) (visible : List Attribute)

def Grants (ev : Evaluation) (targets : List Target) (rule : GrantRule) (id : String) (u : Use ρ) : Prop :=
  ∃ t ∈ targets, t.id = id ∧ ∃ e g, ev.entity id = some e ∧ grantFor T rule id e = some g ∧ g.Covers S visible u

variable {T S visible} {ev : Evaluation} {rule : GrantRule}

lemma grantTargets_exact (targets : List Target) {s : Granting} (hres : Resolved ev.cfg.names s.held) :
    ∀ id u, HeldCover S visible ev.cfg.names (targets.foldl (grantTarget T rule ev) s).held id u ↔
      HeldCover S visible ev.cfg.names s.held id u ∨ Grants T S visible ev targets rule id u := by
  induction targets generalizing s with
  | nil => simp [Grants]
  | cons t targets ih =>
    intro id u
    have hcons : Grants T S visible ev (t :: targets) rule id u ↔
        (t.id = id ∧ ∃ e g, ev.entity id = some e ∧ grantFor T rule id e = some g ∧ g.Covers S visible u) ∨
          Grants T S visible ev targets rule id u := by
      simp only [Grants, mem_cons, or_and_right, exists_or, exists_eq_left]
    rw [foldl_cons, hcons]
    cases hg : (ev.entity t.id).bind (grantFor T rule t.id) with
    | none =>
      have hnone : ¬ (t.id = id ∧ ∃ e g, ev.entity id = some e ∧ grantFor T rule id e = some g ∧ g.Covers S visible u) := by
        rintro ⟨rfl, e, g, he, hfor, -⟩
        rw [he, bind_some, hfor] at hg
        cases hg
      have hstep : grantTarget T rule ev s t = s := by rw [grantTarget, hg]
      rw [hstep, ih hres id u, or_iff_right hnone]
    | some g =>
      obtain ⟨e, he, hfor⟩ := bind_eq_some_iff.mp hg
      obtain ⟨hentity, hwrites⟩ := grantFor_entity hfor
      have hid : t.id ∈ entityNaming.ids ev.cfg.names := by
        obtain ⟨hmem, hkey⟩ := Keyed.mem_of_findLast he
        rw [← Config.ids_eq, ← hkey]
        exact mem_map_of_mem hmem
      have hthis : (t.id = id ∧ ∃ e g, ev.entity id = some e ∧ grantFor T rule id e = some g ∧ g.Covers S visible u) ↔
          id = t.id ∧ g.Covers S visible u := by
        constructor
        · rintro ⟨rfl, e', g', he', hfor', hcovers⟩
          obtain rfl := some.inj (he.symm.trans he')
          obtain rfl := some.inj (hfor.symm.trans hfor')
          exact ⟨rfl, hcovers⟩
        · rintro ⟨rfl, hcovers⟩
          exact ⟨rfl, e, g, he, hfor, hcovers⟩
      have hplaced := placeGrant_exact S visible (decide ((compileGlobs T rule.fields).patterns ≠ [])) hid hentity hwrites hres
      have hheld : (grantTarget T rule ev s t).held =
          (placeGrant (decide ((compileGlobs T rule.fields).patterns ≠ [])) t.id g s.held).1 := by
        rw [grantTarget, hg]
      rw [ih (by rw [hheld]; exact hplaced.1) id u, hheld, hplaced.2 id u, hthis]
      tauto

lemma grantTargets_unchanged (targets : List Target) {s : Granting}
    (h : (targets.foldl (grantTarget T rule ev) s).changes = []) :
    (targets.foldl (grantTarget T rule ev) s).held = s.held ∧ s.changes = [] := by
  induction targets generalizing s with
  | nil => exact ⟨rfl, h⟩
  | cons t targets ih =>
    obtain ⟨hheld, hchanges⟩ := ih h
    rw [foldl_cons, hheld]
    cases hg : (ev.entity t.id).bind (grantFor T rule t.id) with
    | none =>
      have hstep : grantTarget T rule ev s t = s := by rw [grantTarget, hg]
      rw [hstep] at hchanges ⊢
      exact ⟨rfl, hchanges⟩
    | some g =>
      simp only [grantTarget, hg, append_eq_nil_iff] at hchanges ⊢
      refine ⟨placeGrant_unchanged ?_, hchanges.1⟩
      by_contra hplaced
      rw [Bool.not_eq_false] at hplaced
      rw [if_pos hplaced] at hchanges
      exact cons_ne_nil _ _ hchanges.2

lemma lookup_cons_ite {β : Type} (name key : String) (v : β) (l : List (String × β)) :
    ((key, v) :: l).lookup name = if name = key then some v else l.lookup name := by
  rw [lookup_cons]
  by_cases h : name = key
  · simp [h]
  · rw [beq_eq_false_iff_ne.mpr h, if_neg h]

lemma lookup_setEntry (name name' : String) (grants : List GrantConfig) (l : List (String × List GrantConfig)) :
    (Config.setEntry name grants l).lookup name' = if name' = name then some grants else l.lookup name' := by
  induction l with
  | nil => rw [Config.setEntry, lookup_cons_ite]
  | cons e l ih =>
    obtain ⟨key, gs⟩ := e
    rw [Config.setEntry, lookup_cons_ite]
    dsimp only
    by_cases hkey : key = name
    · rw [if_pos hkey, lookup_cons_ite, hkey]
      split_ifs <;> rfl
    · rw [if_neg hkey, lookup_cons_ite, ih]
      by_cases hname : name' = key
      · rw [if_pos hname, if_pos hname, if_neg (hname ▸ hkey)]
      · rw [if_neg hname, if_neg hname]

lemma grantsOf_setGrants (cfg : Config) (q q' : Principal) (grants : List GrantConfig) :
    (cfg.setGrants q grants).grantsOf q' = if q' = q then grants else cfg.grantsOf q' := by
  obtain ⟨kind, name⟩ := q
  obtain ⟨kind', name'⟩ := q'
  by_cases hname : name' = name
  · cases kind <;> cases kind' <;> simp [Config.setGrants, Config.grantsOf, Config.holders, lookup_setEntry, hname]
  · cases kind <;> cases kind' <;> simp [Config.setGrants, Config.grantsOf, Config.holders, lookup_setEntry, hname]

lemma users_setGrants (cfg : Config) (q : Principal) (grants : List GrantConfig) (name : String)
    (h : (cfg.users.lookup name).isSome) : ((cfg.setGrants q grants).users.lookup name).isSome := by
  obtain ⟨kind, held⟩ := q
  cases kind with
  | role => exact h
  | user =>
    change ((Config.setEntry held grants cfg.users).lookup name).isSome
    rw [lookup_setEntry]
    split_ifs
    · rfl
    · exact h

/-- What a grant rule leaves alone: the entities, and the users there are. -/
structure KeepsEntities (ev ev' : Evaluation) : Prop where
  entities : ev'.cfg.entities = ev.cfg.entities
  known : ev'.known = ev.known
  users : ∀ name, (ev.cfg.users.lookup name).isSome → (ev'.cfg.users.lookup name).isSome

namespace KeepsEntities
variable {ev' ev'' : Evaluation}

lemma refl (ev : Evaluation) : KeepsEntities ev ev := ⟨rfl, rfl, fun _ h => h⟩

lemma trans (h : KeepsEntities ev ev') (h' : KeepsEntities ev' ev'') : KeepsEntities ev ev'' :=
  ⟨h'.entities.trans h.entities, h'.known.trans h.known, fun name hn => h'.users name (h.users name hn)⟩

lemma names (h : KeepsEntities ev ev') : ev'.cfg.names = ev.cfg.names := by
  rw [Config.names, h.entities, Config.names]

lemma left (h : KeepsEntities ev ev') (hl : ev.Left) : ev'.Left := by
  obtain ⟨gone, hgone⟩ := hl
  exact ⟨gone, by rw [h.names, h.known, hgone]⟩

lemma grants (h : KeepsEntities ev ev') {targets : List Target} {id : String} {u : Use ρ} :
    Grants T S visible ev' targets rule id u ↔ Grants T S visible ev targets rule id u := by
  simp only [Grants, Evaluation.entity, h.entities]

end KeepsEntities

lemma keepsEntities_createRole (rule : GrantRule) (name : String) (ev : Evaluation) :
    KeepsEntities ev (createRole rule name ev) := by
  unfold createRole
  split_ifs
  · exact .refl ev
  · exact ⟨rfl, rfl, fun _ h => h⟩

lemma keepsEntities_grantTo (rule : GrantRule) (targets : List Target) (q : Principal) (ev : Evaluation) :
    KeepsEntities ev (grantTo T rule targets q ev) := by
  unfold grantTo
  dsimp only
  split_ifs
  · exact .refl ev
  · refine ⟨?_, rfl, users_setGrants ev.cfg q _⟩
    obtain ⟨kind, name⟩ := q
    cases kind <;> rfl

lemma keepsEntities_grant (targets : List Target) (ev : Evaluation) (rule : GrantRule) :
    KeepsEntities ev (grant T targets ev rule) := by
  unfold grant
  split
  · exact .refl ev
  · split_ifs
    · exact keepsEntities_grantTo rule targets _ ev
    · exact .refl ev
  · exact (keepsEntities_createRole rule _ ev).trans (keepsEntities_grantTo rule targets _ _)

lemma covered_createRole (name : String) (q : Principal) (id : String) (u : Use ρ) :
    (createRole rule name ev).Covered S visible q id u ↔ ev.Covered S visible q id u := by
  have hgrants : (createRole rule name ev).cfg.grantsOf q = ev.cfg.grantsOf q := by
    unfold createRole
    split_ifs with hrole
    · rfl
    · change (ev.cfg.setGrants ⟨.role, name⟩ []).grantsOf q = _
      rw [grantsOf_setGrants]
      split_ifs with hq
      · subst hq
        rw [Bool.not_eq_true, isSome_eq_false_iff, isNone_iff_eq_none] at hrole
        change [] = ((ev.cfg.roles.lookup name).getD [])
        rw [hrole, getD_none]
      · rfl
  rw [Evaluation.Covered, hgrants, (keepsEntities_createRole rule name ev).names]
  exact Iff.rfl

lemma covered_grantTo (targets : List Target) (hleft : ev.Left) (q q' : Principal) (id : String) (u : Use ρ) :
    (grantTo T rule targets q ev).Covered S visible q' id u ↔
      ev.Covered S visible q' id u ∨ q' = q ∧ Grants T S visible ev targets rule id u := by
  generalize hstart : (⟨(ev.cfg.grantsOf q).map fun g => ⟨ev.resolve g.entity, g⟩, []⟩ : Granting) = start
  have hres : Resolved ev.cfg.names start.held := by
    subst hstart
    intro h hmem id hid hon
    obtain ⟨g, -, rfl⟩ := mem_map.mp hmem
    exact hleft.idOf hon (by rwa [Config.ids_eq])
  have hexact := @grantTargets_exact T ρ S visible ev rule targets start hres id u
  have hbefore : HeldCover S visible ev.cfg.names start.held id u ↔ ev.Covered S visible q id u := by
    subst hstart
    simp [HeldCover, Evaluation.Covered]
  have hafter : (grantTo T rule targets q ev).cfg.grantsOf q' =
      if q' = q then (targets.foldl (grantTarget T rule ev) start).held.map Held.grant else ev.cfg.grantsOf q' := by
    unfold grantTo
    dsimp only
    rw [hstart]
    split_ifs with hchanges hq hq
    · rw [(grantTargets_unchanged targets hchanges).1, ← hstart, hq]
      simp [Function.comp_def]
    · rfl
    · change (ev.cfg.setGrants q _).grantsOf q' = _
      rw [grantsOf_setGrants, if_pos hq]
    · change (ev.cfg.setGrants q _).grantsOf q' = _
      rw [grantsOf_setGrants, if_neg hq]
  rw [Evaluation.Covered, hafter, (keepsEntities_grantTo rule targets q ev).names]
  by_cases hq : q' = q
  · subst hq
    rw [if_pos rfl, ← hbefore, eq_self_iff_true, true_and, ← hexact]
    simp [HeldCover]
  · rw [if_neg hq]
    simp [hq, Evaluation.Covered]

lemma covered_grant (targets : List Target) (hleft : ev.Left) (q : Principal)
    (hq : q.kind = .user → (ev.cfg.users.lookup q.name).isSome) (id : String) (u : Use ρ) :
    (grant T targets ev rule).Covered S visible q id u ↔
      ev.Covered S visible q id u ∨ principalOf rule.principal = some q ∧ Grants T S visible ev targets rule id u := by
  unfold grant
  split
  · rename_i hnone
    simp [hnone]
  · rename_i name hsome
    rw [hsome, some.injEq, @eq_comm _ _ q]
    split_ifs with huser
    · exact covered_grantTo targets hleft ⟨.user, name⟩ q id u
    · have hother : q ≠ ⟨.user, name⟩ := by
        rintro rfl
        exact huser (hq rfl)
      simp [hother]
  · rename_i name hsome
    have hcreate := keepsEntities_createRole rule name ev
    rw [hsome, some.injEq, @eq_comm _ _ q, covered_grantTo targets (hcreate.left hleft), covered_createRole, hcreate.grants]

lemma covered_grants (targets : List Target) (rules : List GrantRule) (hleft : ev.Left) (q : Principal)
    (hq : q.kind = .user → (ev.cfg.users.lookup q.name).isSome) (id : String) (u : Use ρ) :
    (rules.foldl (grant T targets) ev).Covered S visible q id u ↔ ev.Covered S visible q id u ∨
      ∃ rule ∈ rules, principalOf rule.principal = some q ∧ Grants T S visible ev targets rule id u := by
  induction rules generalizing ev with
  | nil => simp
  | cons rule rules ih =>
    have hkeep := keepsEntities_grant (T := T) targets ev rule
    rw [foldl_cons, ih (hkeep.left hleft) fun hkind => hkeep.users q.name (hq hkind), covered_grant targets hleft q hq]
    simp only [mem_cons, or_and_right, exists_or, exists_eq_left, hkeep.grants]
    tauto

end

section
variable (T : GoText) (input : Input) (p : Plan) (early : Bool)

lemma users_importTables (rows : List Row) (ev : Evaluation) :
    (importTables T input p rows ev).cfg.users = ev.cfg.users := by
  have himports : ((planImports T input p rows).foldl (fun ev i => ev.importEntity i.2) ev).cfg.users = ev.cfg.users := by
    refine List.foldlRecOn (motive := fun ev' : Evaluation => ev'.cfg.users = ev.cfg.users) _ _ rfl ?_
    intro ev' h i _
    exact h
  unfold importTables
  dsimp only
  refine List.foldlRecOn (motive := fun ev' : Evaluation => ev'.cfg.users = ev.cfg.users) _ _ himports ?_
  intro ev' h id _
  exact h

lemma beforeGrants_left : (beforeGrants T input p early).Left ∧
    (beforeGrants T input p early).cfg.users.map Prod.fst = input.base.users.map Prod.fst := by
  generalize hev : qualifyReferences input.base (importTables T input p (planRows T input p) (.start input.base)) = ev
  have hsame := sameNames_qualifyReferences input.base (importTables T input p (planRows T input p) (.start input.base))
  rw [hev] at hsame
  have hknown : ev.known = ev.cfg.names := by
    rw [hsame.known, hsame.names]
    rfl
  have husers : ev.cfg.users.map Prod.fst = input.base.users.map Prod.fst := by
    rw [hsame.users, users_importTables]
    rfl
  have hprepare : (prepare T input p early).Left ∧
      (prepare T input p early).cfg.users.map Prod.fst = input.base.users.map Prod.fst := by
    have hleft : ev.Left := ⟨[], by simp [hknown]⟩
    unfold prepare
    dsimp only
    rw [hev]
    split
    · rename_i rule _
      have hsyncs := sameNames_syncTargets input rule (targetsOf T input p (planRows T input p) ++
        runtimeTargets T input p ev (targetsOf T input p (planRows T input p))) ev
      unfold syncAll
      dsimp only
      split_ifs
      · refine ⟨left_removeGone p early _ _ ?_, hsyncs.users.trans husers⟩
        rw [hsyncs.known, hsyncs.names, hknown]
      · exact ⟨hleft.of_sameNames hsyncs, hsyncs.users.trans husers⟩
    · exact ⟨hleft, husers⟩
  have hfields := SameNames.foldl (sameNames_applyFields T p) (ruleTargets T input p (prepare T input p early))
    (prepare T input p early)
  exact ⟨hprepare.1.of_sameNames hfields, hfields.users.trans hprepare.2⟩

lemma lookup_isSome_iff {β : Type} {name : String} {l : List (String × β)} :
    (l.lookup name).isSome ↔ name ∈ l.map Prod.fst := by
  induction l with
  | nil => simp
  | cons e l ih =>
    rw [lookup_cons_ite, map_cons, mem_cons, ← ih]
    split_ifs with h <;> simp [h]

variable {ρ : Type} (S : Selection ρ) (visible : List Attribute)

/-- After the grant rules a principal that is a role or a user there is has what it had and what
the rules naming it grant: nothing is narrowed and nothing else is added. -/
theorem grants_exact (q : Principal) (hq : q.kind = .user → (input.base.users.lookup q.name).isSome) (id : String)
    (u : Use ρ) :
    (afterGrants T input p early).Covered S visible q id u ↔
      (beforeGrants T input p early).Covered S visible q id u ∨
        ∃ rule ∈ p.grants, principalOf rule.principal = some q ∧
          Grants T S visible (beforeGrants T input p early)
            (ruleTargets T input p (prepare T input p early)) rule id u := by
  obtain ⟨hleft, husers⟩ := beforeGrants_left T input p early
  apply covered_grants _ p.grants hleft q
  intro hkind
  rw [lookup_isSome_iff, husers, ← lookup_isSome_iff]
  exact hq hkind

end

def exactText : GoText := ⟨fun s => s, fun a b => a = b, fun _ _ => false, fun _ => true⟩

def everyRow : Selection Unit := ⟨fun _ _ => True, fun _ _ _ _ => Iff.rfl⟩

def shopInput : Input where
  base := { entities := [{ name := "orders", dataSource := "shop", primaryKey := ["id"], fields := [{ name := "id" }] }] }
  sources := [⟨"shop", { tables := [{ source := "orders", columns := [{ name := "id" }] }] }, []⟩]

def readOrders (principal : String) : Plan := { grants := [{ principal, actions := ["read"] }] }

def readId : Use Unit := ⟨"read", ["id"], [], ()⟩

lemma grants_of_eval {T : GoText} {ev : Evaluation} {targets : List Target} {rule : GrantRule} {id : String} {u : Use Unit}
    (hid : id ∈ targets.map Target.id)
    (hfor : (ev.entity id).bind (grantFor T rule id) = some { entity := id, actions := [u.action] }) :
    Grants T everyRow [] ev targets rule id u := by
  obtain ⟨t, ht, htid⟩ := mem_map.mp hid
  obtain ⟨e, he, hg⟩ := bind_eq_some_iff.mp hfor
  refine ⟨t, ht, htid, e, _, he, hg, mem_singleton_self _, ?_, trivial⟩
  intro acl hacl
  cases hacl

theorem grants_exact_newRole : (afterGrants exactText shopInput (readOrders "role:clerk") false).Covered everyRow []
    ⟨.role, "clerk"⟩ "shop.orders" readId :=
  (grants_exact exactText shopInput (readOrders "role:clerk") false everyRow [] ⟨.role, "clerk"⟩ (by decide) "shop.orders"
    readId).mpr (.inr ⟨_, mem_cons_self, by decide, grants_of_eval (by decide) (by decide)⟩)

/-- A rule for a user there is none of is accepted and grants nothing. -/
theorem unknown_user_granted_nothing :
    (evaluate exactText shopInput (readOrders "user:ghost") false).toBool = true ∧
      principalOf "user:ghost" = some ⟨.user, "ghost"⟩ ∧
      Grants exactText everyRow [] (beforeGrants exactText shopInput (readOrders "user:ghost") false)
        (ruleTargets exactText shopInput (readOrders "user:ghost") (prepare exactText shopInput (readOrders "user:ghost") false))
        { principal := "user:ghost", actions := ["read"] } "shop.orders" readId ∧
      ¬ (afterGrants exactText shopInput (readOrders "user:ghost") false).Covered everyRow [] ⟨.user, "ghost"⟩
        "shop.orders" readId := by
  refine ⟨by decide, by decide, grants_of_eval (by decide) (by decide), ?_⟩
  have hnone : (afterGrants exactText shopInput (readOrders "user:ghost") false).cfg.grantsOf ⟨.user, "ghost"⟩ = [] := by
    decide
  rintro ⟨g, hg, -⟩
  rw [hnone] at hg
  cases hg

end SqlMcpServer.Configplan
