import SqlMcpServer.Configplan.Evaluate

/-!
# What the steps of an evaluation leave alone

After the imports the names of the entities change only when a sync removes some, by ID; so a
reference resolved before names the same entity among those left.
-/

namespace SqlMcpServer.Configplan

structure SameNames (ev ev' : Evaluation) : Prop where
  names : ev'.cfg.names = ev.cfg.names
  known : ev'.known = ev.known
  users : ev'.cfg.users.map Prod.fst = ev.cfg.users.map Prod.fst

namespace SameNames
variable {ev ev' ev'' : Evaluation}

lemma refl (ev : Evaluation) : SameNames ev ev := ⟨rfl, rfl, rfl⟩

lemma trans (h : SameNames ev ev') (h' : SameNames ev' ev'') : SameNames ev ev'' :=
  ⟨h'.names.trans h.names, h'.known.trans h.known, h'.users.trans h.users⟩

lemma foldl {α : Type} {step : Evaluation → α → Evaluation} (hstep : ∀ ev a, SameNames ev (step ev a)) (l : List α)
    (ev : Evaluation) : SameNames ev (l.foldl step ev) := by
  apply List.foldlRecOn l step (SameNames.refl ev)
  intro ev' h a _
  exact h.trans (hstep ev' a)

end SameNames

lemma Config.ids_eq (cfg : Config) : cfg.ids = entityNaming.ids cfg.names := by
  rw [Config.ids, Config.names, Naming.ids, List.map_map]
  rfl

section
variable (T : GoText) (input : Input) (p : Plan)

lemma sameNames_change (ev : Evaluation) (id : String) {f : EntityConfig → EntityConfig} (cs : List Change)
    (hf : ∀ e, (f e).toEntityName = e.toEntityName) : SameNames ev ((ev.change id f).summarize cs) :=
  ⟨Keyed.map_updateLast EntityConfig.toEntityName hf, rfl, rfl⟩

lemma sameNames_mapGrants (f : GrantConfig → Option GrantConfig) (ev : Evaluation) : SameNames ev (ev.mapGrants f) := by
  refine ⟨rfl, rfl, ?_⟩
  simp [Evaluation.mapGrants, Function.comp_def]

lemma sameNames_qualifyReferences (base : Config) (ev : Evaluation) : SameNames ev (qualifyReferences base ev) := by
  unfold qualifyReferences
  split_ifs
  · exact .refl ev
  · have hmap := sameNames_mapGrants (qualifyGrant (ev.fix base)) ev
    refine hmap.trans ⟨?_, rfl, rfl⟩
    simp [Config.names, Function.comp_def, qualifyEntity]

lemma sameNames_syncKind (ev : Evaluation) (t : Target) : SameNames ev (syncKind ev t) := by
  unfold syncKind
  dsimp only
  split_ifs
  · apply sameNames_change
    intro e
    rfl
  · exact .refl ev

lemma sameNames_syncKeys (rule : SyncRule) (ev : Evaluation) (t : Target) : SameNames ev (syncKeys rule ev t) := by
  unfold syncKeys
  split
  · exact .refl ev
  · dsimp only
    split_ifs
    · exact .refl ev
    · apply sameNames_change
      intro e
      rfl

lemma sameNames_syncStructure (rule : SyncRule) (targets : List Target) (ev : Evaluation) :
    SameNames ev (syncStructure input rule targets ev) := by
  apply SameNames.foldl
  intro ev src
  apply SameNames.foldl
  intro ev t
  exact (sameNames_syncKind ev t).trans (sameNames_syncKeys rule _ t)

lemma sameNames_removeField (t : Target) (ev : Evaluation) (field : String) : SameNames ev (removeField t ev field) := by
  unfold removeField
  split_ifs
  · exact .refl ev
  · have hchange := sameNames_change ev t.id
      (f := fun e => { e with fields := e.fields.filter fun f => f.name ≠ field }) [] fun _ => rfl
    exact ⟨hchange.names, rfl, rfl⟩

lemma sameNames_sync (rule : SyncRule) (ev : Evaluation) (t : Target) : SameNames ev (sync rule ev t) := by
  have hadd : SameNames ev (syncAdd rule t ev) := by
    unfold syncAdd
    split_ifs
    · apply sameNames_change
      intro e
      rfl
    · exact .refl ev
  unfold sync
  dsimp only
  split_ifs
  · exact .refl ev
  · exact hadd.trans (.foldl (sameNames_removeField t) _ _)
  · exact hadd

lemma sameNames_dropGrantFields (ev : Evaluation) : SameNames ev (dropGrantFields ev) := by
  unfold dropGrantFields
  split_ifs
  · exact .refl ev
  · exact sameNames_mapGrants _ ev

lemma sameNames_syncTargets (rule : SyncRule) (targets : List Target) (ev : Evaluation) :
    SameNames ev (syncTargets input rule targets ev) := by
  have hkeys : SameNames ev (if rule.keys then syncStructure input rule targets ev else ev) := by
    split_ifs
    · exact sameNames_syncStructure input rule targets ev
    · exact .refl ev
  exact hkeys.trans ((SameNames.foldl (sameNames_sync rule) targets _).trans (sameNames_dropGrantFields _))

lemma sameNames_applyRule (t : Target) (ev : Evaluation) (rule : FieldRule) : SameNames ev (applyRule T t ev rule) := by
  unfold applyRule
  dsimp only
  split_ifs
  · exact .refl ev
  · apply sameNames_change
    intro e
    rfl

lemma sameNames_applyFields (ev : Evaluation) (t : Target) : SameNames ev (applyFields T p ev t) :=
  .foldl (sameNames_applyRule T t) p.fields ev

def Evaluation.Left (ev : Evaluation) : Prop := ∃ gone : List String, ev.cfg.names = ev.known.filter fun e => e.id ∉ gone

lemma Evaluation.Left.of_sameNames {ev ev' : Evaluation} (h : ev.Left) (hsame : SameNames ev ev') : ev'.Left := by
  obtain ⟨gone, hgone⟩ := h
  exact ⟨gone, by rw [hsame.names, hsame.known, hgone]⟩

lemma Evaluation.Left.idOf {ev : Evaluation} (h : ev.Left) {ref id : String} (href : ev.resolve ref = some id)
    (hid : id ∈ ev.cfg.ids) : entityNaming.idOf ev.cfg.names ref = some id := by
  obtain ⟨gone, hgone⟩ := h
  rw [Config.ids_eq, hgone] at hid
  rw [hgone]
  exact Naming.idOf_filter (fun id => id ∉ gone) href hid

lemma left_removeGone (early : Bool) (gone : List Gone) (ev : Evaluation) (h : ev.known = ev.cfg.names) :
    (removeGone p early gone ev).Left := by
  unfold removeGone Evaluation.Left
  generalize ((gone.filter fun g => g.entity ∈ ev.cfg.ids ∧ g.ref ∉ p.exclude).map Gone.entity).dedup = drop
  have hnames : (ev.cfg.entities.filter fun e => e.id ∉ drop).map EntityConfig.toEntityName =
      ev.cfg.names.filter fun e => e.id ∉ drop := by
    rw [Config.names, List.filter_map]
    rfl
  cases early with
  | true => exact ⟨drop, by rw [h]; exact hnames⟩
  | false =>
    refine ⟨[], ?_⟩
    simp [Config.names]

end

end SqlMcpServer.Configplan
