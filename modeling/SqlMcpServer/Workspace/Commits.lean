import SqlMcpServer.Revision.Forward
import SqlMcpServer.Workspace.ConflictLaws
import SqlMcpServer.Workspace.Versions

namespace SqlMcpServer.Workspaces

open List
open Option (map_eq_some_iff)

open SqlMcpServer.Revisions (Revision Payload MemoryStore Op Caller)

def SavedAs (svc : Service) (m : MemoryStore) (draft : Int) (w : Workspace) : Prop :=
  ∃ r rev, m.get? draft = some r ∧ svc.build rev w.items = some r.payload

structure Reviewed (req : CommitRequest) (snap : Workspace) : Prop where
  version : snap.version = req.version
  base : snap.base = req.expectedPublished

def Change.Fact (svc : Service) (s : State) : Change → Prop
  | .checkpoint draft builtVersion builtBase =>
    ∃ snap base, Read svc s snap base ∧ snap.version = builtVersion ∧ snap.base = builtBase ∧ SavedAs svc s.history draft snap
  | .moveAfterCommit snap published next _ =>
    ∃ c ∈ s.commits, c.snap = snap ∧ c.published.id = published ∧ svc.itemsOf c.published = some next
  | _ => True

def Why.Fact (svc : Service) (s : State) : Why → Prop
  | .apply change _ _ => change.Fact svc s
  | .save _ => True

def Save.Fact (snap : Workspace) : Save → Prop
  | .checkpoint _ => True
  | .commit req => Reviewed req snap

def Stage.CommitFact (svc : Service) (s : State) : Stage → Prop
  | .readWorkspace why => why.Fact svc s
  | .readPublished why => why.Fact svc s
  | .readBase why _ _ => why.Fact svc s
  | .put change _ _ _ _ => change.Fact svc s
  | .expect req snap _ => Reviewed req snap
  | .build save snap _ => save.Fact snap
  | .create save snap _ payload => save.Fact snap ∧ ∃ rev, svc.build rev snap.items = some payload
  | .publish req snap _ draft => Reviewed req snap ∧ SavedAs svc s.history draft snap
  | _ => True

/-- What the history has of a commit. -/
structure Commit.Fact (svc : Service) (s : State) (c : Commit) : Prop where
  reviewed : Reviewed c.req c.snap
  version : IsVersion svc s c.snap
  replaced : c.replaced = c.req.expectedPublished
  built : ∃ rev, svc.build rev c.snap.items = some c.published.payload

/-- What a version has of its checkpoint. -/
structure Workspace.CheckpointFact (svc : Service) (m : MemoryStore) (w : Workspace) : Prop where
  known : w.checkpoint = 0 ∨ ∃ r, m.get? w.checkpoint = some r
  le : w.checkpointAt ≤ w.version
  saved : w.checkpointAt = w.version → SavedAs svc m w.checkpoint w

variable {m : MemoryStore} {w : Workspace} {base : Snapshot} {change : Change} {id : Nat} {a : Action}

section
variable {svc : Service} {hash : Payload → String} {now : Int} {s s' : State} {who : String} {st st' : Stage}

lemma SavedAs.later {m' : MemoryStore} {draft : Int} (hlater : Later m m') (h : SavedAs svc m draft w) :
    SavedAs svc m' draft w := by
  obtain ⟨r, rev, hr, hbuild⟩ := h
  obtain ⟨r', hr', hpayload⟩ := hlater.kept _ r hr
  exact ⟨r', rev, hr', hpayload ▸ hbuild⟩

lemma IsVersion.later (hlater : Later s.history s'.history) (hsub : s.versions ⊆ s'.versions)
    (h : IsVersion svc s w) : IsVersion svc s' w := by
  rcases h with h | ⟨base, hw, hitems⟩
  · exact .inl (hsub h)
  · exact .inr ⟨base, hw, hitems.later hlater⟩

lemma Read.isVersion (h : Read svc s w base) : IsVersion svc s w :=
  h.known.imp_right fun hw => ⟨base, hw, h.base⟩

lemma Workspace.CheckpointFact.later {m' : MemoryStore} (hlater : Later m m')
    (h : w.CheckpointFact svc m) : w.CheckpointFact svc m' := by
  refine ⟨h.known.imp_right fun ⟨r, hr⟩ => ?_, h.le, fun hat => (h.saved hat).later hlater⟩
  obtain ⟨r', hr', _⟩ := hlater.kept _ r hr
  exact ⟨r', hr'⟩

lemma Commit.Fact.later {c : Commit} (hlater : Later s.history s'.history) (hsub : s.versions ⊆ s'.versions)
    (h : c.Fact svc s) : c.Fact svc s' :=
  ⟨h.reviewed, h.version.later hlater hsub, h.replaced, h.built⟩

section
variable (hlater : Later s.history s'.history) (hsub : s.versions ⊆ s'.versions) (hcommits : s.commits ⊆ s'.commits)
include hlater hsub hcommits

lemma Change.Fact.later (h : change.Fact svc s) : change.Fact svc s' := by
  cases change with
  | checkpoint draft builtVersion builtBase =>
    obtain ⟨snap, base, hread, hv, hb, hsaved⟩ := h
    exact ⟨snap, base, hread.later hlater hsub, hv, hb, hsaved.later hlater⟩
  | moveAfterCommit snap published next committed =>
    obtain ⟨c, hc, hrest⟩ := h
    exact ⟨c, hcommits hc, hrest⟩
  | _ => trivial

lemma Why.Fact.later {why : Why} (h : why.Fact svc s) : why.Fact svc s' := by
  cases why with
  | apply change attempt outer => exact Change.Fact.later hlater hsub hcommits h
  | save save => trivial

lemma Stage.CommitFact.later (h : st.CommitFact svc s) : st.CommitFact svc s' := by
  cases st with
  | readWorkspace why => exact Why.Fact.later hlater hsub hcommits h
  | readPublished why => exact Why.Fact.later hlater hsub hcommits h
  | readBase why w id => exact Why.Fact.later hlater hsub hcommits h
  | put change attempt outer w base => exact Change.Fact.later hlater hsub hcommits h
  | expect req snap base => exact h
  | build save snap base => exact h
  | create save snap base payload => exact h
  | publish req snap base draft => exact ⟨h.1, h.2.later hlater⟩
  | _ => trivial

end

lemma create_ok (hwf : m.WF) {d : Revisions.Draft} {r : Revision}
    (h : (m.apply hash now (.create d)).1 = .ok (some r)) :
    m.get? r.id = none ∧ (m.apply hash now (.create d)).2.get? r.id = some r ∧ r.payload = d.payload ∧ 0 < r.id := by
  have hlater := (later_apply (o := .create d) hwf hash now nofun).wf
  simp only [MemoryStore.apply, MemoryStore.create_eq hash now d hwf] at h hlater ⊢
  have hr : Revisions.newDraft hash m.nextID d now = r := Option.some.inj (Except.ok.inj h)
  subst hr
  refine ⟨Keyed.find_eq_none_iff.mpr (MemoryStore.nextID_fresh hwf), ?_, rfl, hwf.next⟩
  exact Keyed.find_of_mem hlater.ids (mem_append_right _ (mem_singleton_self _))

lemma publish_ok (hwf : m.WF) {id expected : Int} {rev : Revision}
    (h : (m.publish now id expected).1 = .ok rev) :
    m.publishedID = expected ∧ ∃ target, m.get? id = some target ∧ rev.payload = target.payload := by
  rcases MemoryStore.publish_cases hwf now expected with ⟨e, he⟩ | ⟨target, current, ht, _, hc, hpub⟩
  · rw [he] at h
    cases h
  · rw [hpub] at h
    cases h
    exact ⟨MemoryStore.publishedID_of_checkCurrent hwf hc, target, ht, rfl⟩

lemma perform_committed {i : Caller} {req : CommitRequest} {snap : Workspace} {draft : Int} {next : Revision → Option Stage}
    {rev : Revision} (h : (s.history.publish now draft req.expectedPublished).1 = .ok rev) :
    (s.perform hash now i who (.publish req snap draft next)).commits = ⟨req, snap, rev, s.history.publishedID⟩ :: s.commits := by
  simp only [State.perform]
  split
  · rename_i rev' m hpub
    rw [hpub] at h
    cases h
    rfl
  · rename_i e m hpub
    rw [hpub] at h
    cases h

lemma step_commits (h : s.step svc hash a = some s') :
    s'.commits = s.commits ∨ ∃ i who now req snap base draft rev, s.pc i = some ⟨who, .publish req snap base draft⟩ ∧
      (s.history.publish now draft req.expectedPublished).1 = .ok rev ∧
      s'.commits = ⟨req, snap, rev, s.history.publishedID⟩ :: s.commits := by
  cases step_does h with
  | elsewhere _ | call _ _ _ | fail _ => exact .inl rfl
  | @turn i t now id s₁ next hpc heq hdone =>
    rcases hdone.commits with hsame | ⟨req, snap, base, draft, rev, hst, hpub, hcons⟩
    · exact .inl hsame
    · exact .inr ⟨i, t.who, now, req, snap, base, draft, rev, by rw [hpc, ← hst], hpub, hcons⟩

lemma Stage.CommitFact.of_bare (h : st.isBare = true) : st.CommitFact svc s := by
  cases st <;> trivial

lemma start_commitFact (c : Call) : c.start.CommitFact svc s := by
  cases c <;> trivial

lemma loaded_commitFact {why : Why} (hwhy : why.Fact svc s)
    (h : Stage.loaded svc w base why = some st) : st.CommitFact svc s := by
  cases why with
  | apply change attempt outer =>
    cases h
    exact hwhy
  | save save =>
    cases save with
    | checkpoint comment =>
      simp only [Stage.loaded] at h
      split_ifs at h
      cases h
      trivial
    | commit req =>
      simp only [Stage.loaded] at h
      split_ifs at h with hbad
      cases h
      obtain ⟨hversion, hrest⟩ := not_or.mp hbad
      exact ⟨not_not.mp hversion, not_not.mp (not_or.mp hrest).2⟩

lemma turn_commitFact (hinv : Inv svc s) {i : Caller} (hfact : st.Fact svc s) (hcommit : st.CommitFact svc s)
    (hs' : s' = s.perform hash now i who (st.turn svc id who s.history s.stored))
    (hlater : Later s.history s'.history) (hsub : s.versions ⊆ s'.versions) (hcommits : s.commits ⊆ s'.commits)
    (h : Turns svc hash now s who st st') : st'.CommitFact svc s' := by
  have hkept := Stage.CommitFact.later hlater hsub hcommits hcommit
  cases h with
  | bare h => exact .of_bare h
  | @plain st change outer h => cases change <;> trivial
  | kept h => exact hkept
  | absent => exact hkept
  | unwritten => exact hkept
  | loaded hitems h => exact Stage.CommitFact.later hlater hsub hcommits (loaded_commitFact hcommit h)
  | again => exact hkept
  | expected => exact hcommit
  | built h => exact ⟨hcommit, _, h⟩
  | @saved save snap base payload draft h =>
    obtain ⟨_, hget, hpayload, _⟩ := create_ok hinv.wf h
    obtain ⟨hsave, rev, hbuild⟩ := hcommit
    have hsaved : SavedAs svc s'.history draft.id snap := by
      rw [hs']
      exact ⟨draft, rev, hget, hbuild.trans (congrArg some hpayload.symm)⟩
    cases save with
    | checkpoint comment => exact ⟨snap, base, hfact.later hlater hsub, rfl, rfl, hsaved⟩
    | commit req => exact ⟨hsave, hsaved⟩
  | @committed req snap base next draft rev h hnext =>
    refine ⟨⟨req, snap, rev, s.history.publishedID⟩, ?_, rfl, rfl, hnext⟩
    rw [hs', Stage.turn, perform_committed h]
    exact mem_cons_self

end

def Change.saving : Change → Option Int
  | .checkpoint draft _ _ => some draft
  | _ => none

def Why.saving : Why → Option Int
  | .apply change _ _ => change.saving
  | .save _ => none

def Stage.saving : Stage → Option Int
  | .readWorkspace why => why.saving
  | .readPublished why => why.saving
  | .readBase why _ _ => why.saving
  | .put change _ _ _ _ => change.saving
  | _ => none

section
variable {svc : Service} {hash : Payload → String} {now : Int} {s s' : State} {who : String} {st st' : Stage} {d : Int}

lemma saving_of_bare (h : st.isBare = true) : st.saving = none := by
  cases st <;> first
    | rfl
    | cases h

lemma saving_of_plain (h : change.isPlain = true) : change.saving = none := by
  cases change <;> first
    | rfl
    | cases h

lemma start_saving (c : Call) : c.start.saving = none := by
  cases c <;> rfl

lemma loaded_saving {why : Why} (h : Stage.loaded svc w base why = some st) :
    st.saving = why.saving := by
  cases why with
  | apply change attempt outer =>
    cases h
    rfl
  | save save => cases save <;> simp only [Stage.loaded] at h <;> split_ifs at h <;> cases h <;> rfl

lemma turn_saving (h : Turns svc hash now s who st st') (hd : st'.saving = some d) :
    st.saving = some d ∨ ∃ draft r, (s.history.apply hash now (.create draft)).1 = .ok (some r) ∧ r.id = d := by
  cases h with
  | bare h =>
    rw [saving_of_bare h] at hd
    cases hd
  | plain h =>
    have hnone := (saving_of_plain h).symm.trans hd
    cases hnone
  | kept h => exact .inl hd
  | absent => exact .inl hd
  | unwritten => exact .inl hd
  | loaded hitems h =>
    rw [loaded_saving h] at hd
    exact .inl hd
  | again => exact .inl hd
  | expected => cases hd
  | built h => cases hd
  | @saved save snap base payload draft h =>
    cases save with
    | checkpoint comment => exact .inr ⟨_, draft, h, Option.some.inj hd⟩
    | commit req => cases hd
  | committed h hnext => cases hd

lemma saving_known (h : st.CommitFact svc s) (hd : st.saving = some d) : ∃ r, s.history.get? d = some r := by
  have hchange : ∀ change : Change, change.Fact svc s → change.saving = some d → ∃ r, s.history.get? d = some r := by
    intro change hfact hsaving
    cases change with
    | checkpoint draft builtVersion builtBase =>
      cases hsaving
      obtain ⟨_, _, _, _, _, r, _, hr, _⟩ := hfact
      exact ⟨r, hr⟩
    | _ => cases hsaving
  have hwhy : ∀ why : Why, why.Fact svc s → why.saving = some d → ∃ r, s.history.get? d = some r := by
    intro why hfact hsaving
    cases why with
    | apply change attempt outer => exact hchange change hfact hsaving
    | save save => cases hsaving
  cases st with
  | readWorkspace why => exact hwhy why h hd
  | readPublished why => exact hwhy why h hd
  | readBase why w id => exact hwhy why h hd
  | put change attempt outer w base => exact hchange change h hd
  | _ => cases hd

lemma run_checkpoint {out : Workspace} {entry : LogEntry}
    (h : change.run svc id w base = .write out entry) (hsaving : change.saving = none) :
    (out.checkpoint = w.checkpoint ∨ out.checkpoint = 0) ∧ (out.checkpointAt = w.checkpointAt ∨ out.checkpointAt = 0) := by
  cases change with
  | writeItems op writes note =>
    simp only [Change.run, Service.writeItems] at h
    split at h
    · cases h
    · split at h <;> cases h
      exact ⟨.inl rfl, .inl rfl⟩
  | update to_ next =>
    simp only [Change.run, Service.update] at h
    split_ifs at h
    cases h
    exact ⟨.inl rfl, .inl rfl⟩
  | reset to_ next =>
    cases h
    exact ⟨.inr rfl, .inr rfl⟩
  | resolve conflict theirs =>
    simp only [Change.run, Service.resolve] at h
    split at h <;> cases h
    exact ⟨.inl rfl, .inl rfl⟩
  | mergeDraft draft from_ published fromItems draftItems onto =>
    simp only [Change.run, Service.mergeDraft] at h
    split_ifs at h
    cases h
    simp only [Service.takeIn, Service.movedOnto]
    split_ifs <;> exact ⟨.inl rfl, .inl rfl⟩
  | load rev content keep published onto =>
    simp only [Change.run, Service.load] at h
    split_ifs at h <;> cases h
    · exact ⟨.inl rfl, .inl rfl⟩
    · exact ⟨.inl rfl, .inl rfl⟩
    · exact ⟨.inr rfl, .inr rfl⟩
  | checkpoint draft builtVersion builtBase => cases hsaving
  | moveAfterCommit snap published next committed =>
    cases h
    refine ⟨?_, .inr rfl⟩
    simp only
    split_ifs
    · exact .inr rfl
    · exact .inl rfl

end

structure CommitInv (svc : Service) (s : State) : Prop where
  inv : Inv svc s
  commits : ∀ c ∈ s.commits, c.Fact svc s
  checkpoints : ∀ w ∈ s.versions, w.CheckpointFact svc s.history
  pcs : ∀ i t, s.pc i = some t → t.stage.CommitFact svc s
  fresh : ∀ i t d, s.pc i = some t → t.stage.saving = some d → d ≠ 0 ∧ ∀ w ∈ s.versions, w.checkpoint ≠ d
  distinct : ∀ i j t t' d, i ≠ j → s.pc i = some t → s.pc j = some t' → t.stage.saving = some d → t'.stage.saving ≠ some d

section
variable {svc : Service} {hash : Payload → String} {s s' : State}

lemma step_commits_subset (h : s.step svc hash a = some s') : s.commits ⊆ s'.commits := by
  rcases step_commits h with hsame | ⟨_, _, _, _, _, _, _, _, _, _, hcons⟩
  · rw [hsame]
    exact List.Subset.refl _
  · rw [hcons]
    exact subset_cons_self _ _

lemma CommitInv.written (hinv : CommitInv svc s) (hcodec : ReadsPayload svc) {w' : Workspace}
    {e : LogEntry} (hread : Read svc s w base) (hfact : change.Fact svc s) (h : Applied svc change base w w' e) :
    w'.CheckpointFact svc s.history := by
  have hnonneg := hinv.inv.isVersion_nonneg hread.isVersion
  have hw : (w.checkpoint = 0 ∨ ∃ r, s.history.get? w.checkpoint = some r) ∧ w.checkpointAt ≤ w.version := by
    rcases hread.known with hmem | hw
    · exact ⟨(hinv.checkpoints w hmem).known, (hinv.checkpoints w hmem).le⟩
    · rw [hw]
      exact ⟨.inl rfl, le_refl _⟩
  obtain ⟨id, who, out, entry, hrun, rfl, rfl⟩ := h
  cases hsaving : change.saving with
  | none =>
    obtain ⟨hcheckpoint, hat⟩ := run_checkpoint hrun hsaving
    have hlt : out.checkpointAt < w.version + 1 := by omega
    refine ⟨?_, le_of_lt hlt, fun heq => absurd heq (ne_of_lt hlt)⟩
    rcases hcheckpoint with hsame | hzero
    · exact hsame ▸ hw.1
    · exact .inl hzero
  | some d =>
    cases change with
    | checkpoint draft builtVersion builtBase =>
      obtain ⟨snap, base', hsnap, rfl, rfl, hsaved⟩ := hfact
      obtain ⟨r, rev, hr, hbuild⟩ := hsaved
      cases hrun
      refine ⟨.inr ⟨r, hr⟩, ?_, fun heq => ?_⟩
      · simp only
        split_ifs <;> omega
      · -- The workspace is as it was built.
        simp only at heq
        split_ifs at heq with hbuilt
        · have hsame := hinv.inv.same_version hcodec hread.isVersion hsnap.isVersion hbuilt.1 hbuilt.2
          exact ⟨r, rev, hr, hsame ▸ hbuild⟩
        · omega
    | _ => cases hsaving

lemma CommitInv.pc_cases (hinv : CommitInv svc s) (h : s.step svc hash a = some s') :
    ∃ i, (∀ j, j ≠ i → s'.pc j = s.pc j) ∧ ∀ t', s'.pc i = some t' → t'.stage.CommitFact svc s' ∧
      ∀ d, t'.stage.saving = some d → (∃ t, s.pc i = some t ∧ t.stage.saving = some d) ∨ d ≠ 0 ∧ s.history.get? d = none := by
  have hlater := step_later hinv.inv.wf h
  have hsub := step_subset h
  have hcommits := step_commits_subset h
  obtain ⟨i, hother, hmoved⟩ := step_pc h
  refine ⟨i, hother, fun t' ht' => ?_⟩
  rcases hmoved t' ht' with ht | ⟨c, hc⟩ | ⟨t, ht, _, hfail | ⟨now, id, hs', hnext⟩⟩
  · exact ⟨Stage.CommitFact.later hlater hsub hcommits (hinv.pcs i t' ht), fun d hd => .inl ⟨t', ht, hd⟩⟩
  · rw [hc]
    exact ⟨start_commitFact c, fun d hd => nomatch (start_saving c).symm.trans hd⟩
  · have hbare := fail_bare hfail
    exact ⟨.of_bare hbare, fun d hd => nomatch (saving_of_bare hbare).symm.trans hd⟩
  · have hturns := turns_of_next hnext
    refine ⟨turn_commitFact hinv.inv (hinv.inv.pcs i t ht) (hinv.pcs i t ht) hs' hlater hsub hcommits hturns, fun d hd => ?_⟩
    rcases turn_saving hturns hd with hsaving | ⟨draft, r, hr, rfl⟩
    · exact .inl ⟨t, ht, hsaving⟩
    · obtain ⟨hnone, _, _, hpos⟩ := create_ok hinv.inv.wf hr
      exact .inr ⟨by omega, hnone⟩

lemma CommitInv.checkpoint_ne (hinv : CommitInv svc s) {d : Int} (hd : d ≠ 0) (hnone : s.history.get? d = none)
    (hw : w ∈ s.versions) : w.checkpoint ≠ d := by
  rintro rfl
  rcases (hinv.checkpoints w hw).known with hzero | ⟨r, hr⟩
  · exact hd hzero
  · rw [hnone] at hr
    cases hr

lemma CommitInv.distinct_step (hinv : CommitInv svc s) (h : s.step svc hash a = some s') :
    ∀ j k t t' d, j ≠ k → s'.pc j = some t → s'.pc k = some t' → t.stage.saving = some d → t'.stage.saving ≠ some d := by
  obtain ⟨i, hother, hmoved⟩ := hinv.pc_cases h
  -- What another call is saving was not just stored.
  have hcase : ∀ k t t' d, k ≠ i → s'.pc i = some t → s'.pc k = some t' → t.stage.saving = some d → t'.stage.saving ≠ some d := by
    intro k t t' d hk ht ht' hd hd'
    rw [hother k hk] at ht'
    rcases (hmoved t ht).2 d hd with ⟨t₀, ht₀, hd₀⟩ | ⟨_, hnone⟩
    · exact hinv.distinct i k t₀ t' d (Ne.symm hk) ht₀ ht' hd₀ hd'
    · obtain ⟨r, hr⟩ := saving_known (hinv.pcs k t' ht') hd'
      rw [hnone] at hr
      cases hr
  intro j k t t' d hjk ht ht' hd hd'
  by_cases hj : j = i
  · subst hj
    exact hcase k t t' d (Ne.symm hjk) ht ht' hd hd'
  · by_cases hk : k = i
    · subst hk
      exact hcase j t' t d hj ht' ht hd' hd
    · rw [hother j hj] at ht
      rw [hother k hk] at ht'
      exact hinv.distinct j k t t' d hjk ht ht' hd hd'

lemma CommitInv.fresh_step (hinv : CommitInv svc s) (h : s.step svc hash a = some s') :
    ∀ j t d, s'.pc j = some t → t.stage.saving = some d → d ≠ 0 ∧ ∀ w ∈ s'.versions, w.checkpoint ≠ d := by
  intro j t d ht hd
  rcases step_writes h with ⟨_, _, hvs⟩ | ⟨i, who, change, attempt, outer, w, base, w', e, hpc, happlied, _, _, _, hvs, hpcs⟩
  · rw [hvs]
    obtain ⟨i, hother, hmoved⟩ := hinv.pc_cases h
    by_cases hj : j = i
    · subst hj
      rcases (hmoved t ht).2 d hd with ⟨t₀, ht₀, hd₀⟩ | ⟨hne, hnone⟩
      · exact hinv.fresh j t₀ d ht₀ hd₀
      · exact ⟨hne, fun w hw => hinv.checkpoint_ne hne hnone hw⟩
    · rw [hother j hj] at ht
      exact hinv.fresh j t d ht hd
  · rw [hpcs] at ht
    by_cases hj : j = i
    · -- The call that wrote is done saving.
      subst hj
      rw [Function.update_self] at ht
      obtain ⟨st, hst, rfl⟩ := map_eq_some_iff.mp ht
      rw [saving_of_bare (done_bare hst)] at hd
      cases hd
    · rw [Function.update_of_ne hj] at ht
      obtain ⟨hne, hfresh⟩ := hinv.fresh j t d ht hd
      refine ⟨hne, fun v hv => ?_⟩
      rw [hvs] at hv
      rcases mem_cons.mp hv with rfl | hv
      · have hread : Read svc s w base := hinv.inv.pcs i _ hpc
        obtain ⟨id, who, out, entry, hrun, rfl, rfl⟩ := happlied
        cases hsaving : change.saving with
        | none =>
          rcases (run_checkpoint hrun hsaving).1 with hsame | hzero
          · rw [show Workspace.checkpoint _ = w.checkpoint from hsame]
            rcases hread.known with hw | hw
            · exact hfresh w hw
            · rw [hw]
              exact Ne.symm hne
          · rw [show Workspace.checkpoint _ = 0 from hzero]
            exact Ne.symm hne
        | some d' =>
          have hdd : d' ≠ d := by
            rintro rfl
            exact hinv.distinct i j _ t d' (Ne.symm hj) hpc ht hsaving hd
          cases change with
          | checkpoint draft builtVersion builtBase =>
            cases hsaving
            cases hrun
            exact hdd
          | _ => cases hsaving
      · exact hfresh v hv

lemma CommitInv.step (hinv : CommitInv svc s) (hcodec : ReadsPayload svc) (h : s.step svc hash a = some s') :
    CommitInv svc s' := by
  have hlater := step_later hinv.inv.wf h
  have hsub := step_subset h
  have hcommits := step_commits_subset h
  refine ⟨hinv.inv.step h, fun c hc => ?_, fun v hv => ?_, fun j t ht => ?_, hinv.fresh_step h, hinv.distinct_step h⟩
  · rcases step_commits h with hsame | ⟨i, who, now, req, snap, base, draft, rev, hpc, hpub, hcons⟩
    · rw [hsame] at hc
      exact (hinv.commits c hc).later hlater hsub
    · rw [hcons] at hc
      rcases mem_cons.mp hc with rfl | hc
      · have hread : Read svc s snap base := hinv.inv.pcs i _ hpc
        obtain ⟨hreviewed, r, rev', hr, hbuild⟩ := hinv.pcs i _ hpc
        obtain ⟨hid, target, htarget, hpayload⟩ := publish_ok hinv.inv.wf hpub
        rw [hr] at htarget
        cases htarget
        exact ⟨hreviewed, hread.isVersion.later hlater hsub, hid, rev', hbuild.trans (congrArg some hpayload.symm)⟩
      · exact (hinv.commits c hc).later hlater hsub
  · rcases step_writes h with ⟨_, _, hvs⟩ | ⟨i, who, change, attempt, outer, w, base, w', e, hpc, happlied, _, _, _, hvs, _⟩
    · rw [hvs] at hv
      exact (hinv.checkpoints v hv).later hlater
    · rw [hvs] at hv
      rcases mem_cons.mp hv with rfl | hv
      · have hread : Read svc s w base := hinv.inv.pcs i _ hpc
        have hfact : change.Fact svc s := hinv.pcs i _ hpc
        exact (hinv.written hcodec hread hfact happlied).later hlater
      · exact (hinv.checkpoints v hv).later hlater
  · obtain ⟨i, hother, hmoved⟩ := hinv.pc_cases h
    by_cases hj : j = i
    · subst hj
      exact (hmoved t ht).1
    · rw [hother j hj] at ht
      exact Stage.CommitFact.later hlater hsub hcommits (hinv.pcs j t ht)

lemma commitInv_init (h : m.WF) : CommitInv svc (.init m) := by
  have hidle : ∀ i t, (State.init m).pc i ≠ some t := by simp [State.init]
  exact ⟨inv_init h, fun _ hc => absurd hc not_mem_nil, fun _ hw => absurd hw not_mem_nil, fun i t hpc => absurd hpc (hidle i t), fun i t _ hpc => absurd hpc (hidle i t),
    fun i _ t _ _ _ hpc => absurd hpc (hidle i t)⟩

lemma Runs.commitInv (hm : m.WF) (hcodec : ReadsPayload svc) (h : Runs svc hash m s) : CommitInv svc s :=
  h.invariant (commitInv_init hm) fun _ _ _ hinv _ _ hstep => hinv.step hcodec hstep

/-- What `Build` makes of items loads as those items. -/
def Inverse (svc : Service) : Prop :=
  ∀ rev items payload, svc.build rev items = some payload →
    ∀ r now, r.payload = payload → svc.itemsOf r = some now → ∀ ref, svc.schema.Same (now.get ref) (items.get ref)

/-- What a commit leaves of a workspace it moved, and the drafts it discards. Unless moved past
the revision, it differs from its base, the reviewed snapshot, by what was written since. -/
structure AfterMove (svc : Service) (c : Commit) (w w' : Workspace) (discards : List Int) : Prop where
  differs : w.base ≤ c.published.id → w'.base = c.published.id ∧ ∃ items, svc.itemsOf c.published = some items ∧
    ∀ ref, svc.schema.Same (items.get ref) (c.snap.items.get ref) ∧ svc.schema.Same (w'.items.get ref) (w.items.get ref)
  taken : ∀ d ∈ w.taken, d ∉ c.snap.taken → d ∈ w'.taken
  checkpoint : w.checkpoint ≠ c.snap.checkpoint → w'.checkpoint = w.checkpoint
  discards : ∀ d ∈ discards, d ∈ c.snap.taken ∨ d = c.snap.checkpoint

lemma same_replay {sc : Schema} {old local_ next : Snapshot} (source : Source) (pinned : Bool) (id : Nat) {ref : Ref}
    (h : sc.Same (next.get ref) (old.get ref)) :
    sc.Same ((sc.replay old local_ next source pinned id).1.get ref) (local_.get ref) := by
  have hmerge : (sc.replayItem old local_ next ref).value =
      if sc.SameAt [] (local_.get ref) (old.get ref) then next.get ref else local_.get ref := by
    have hagree : ¬ sc.Contested [] (old.get ref) (local_.get ref) (next.get ref) := fun hc => hc.2.1 h
    rw [Schema.replayItem, Schema.merge, Schema.mergeWithin_agree hagree]
  have hreplay : sc.Same ((sc.replay old local_ next source pinned id).1.get ref) (sc.replayItem old local_ next ref).value :=
    Schema.sameAt_replay []
  rw [hmerge] at hreplay
  split_ifs at hreplay with hlocal
  · exact hreplay.trans (h.trans hlocal.symm)
  · exact hreplay

lemma moveAfterCommit_afterMove {c : Commit} {out : Workspace} {next : Snapshot} {committed : List Ref}
    {entry : LogEntry} (hnext : svc.itemsOf c.published = some next)
    (hsnap : ∀ ref, svc.schema.Same (next.get ref) (c.snap.items.get ref))
    (h : svc.moveAfterCommit c.snap c.published.id next committed id w = .write out entry) :
    AfterMove svc c w out ((c.snap.taken ++ [c.snap.checkpoint]).filter fun d => d ≠ 0 ∧ d ≠ c.published.id) := by
  cases h
  refine ⟨fun hbase => ?_, fun d hd hnot => ?_, fun hne => if_neg hne, fun d hd => ?_⟩
  · simp only [if_pos hbase]
    exact ⟨rfl, next, hnext, fun ref => ⟨hsnap ref, same_replay (Service.publishedSource c.published.id) false id (hsnap ref)⟩⟩
  · exact mem_filter.mpr ⟨hd, by simpa using hnot⟩
  · rcases mem_append.mp (mem_filter.mp hd).1 with hd | hd
    · exact .inl hd
    · exact .inr (mem_singleton.mp hd)

lemma step_move {i : Caller} {who : String} {snap : Workspace} {published now : Int} {next : Snapshot} {committed : List Ref}
    {attempt outer : Nat}
    (hpc : s.pc i = some ⟨who, .put (.moveAfterCommit snap published next committed) attempt outer w base⟩)
    (hv : s.version = w.version) (h : s.step svc hash (.turn i now id) = some s') :
    ∃ out entry, svc.moveAfterCommit snap published next committed id w = .write out entry ∧
      s'.stored = some { out with updatedBy := who, version := w.version + 1 } ∧
      s'.pc i = some ⟨who, .discard ((snap.taken ++ [snap.checkpoint]).filter fun d => d ≠ 0 ∧ d ≠ published)⟩ := by
  simp only [State.step, hpc, Option.map_some] at h
  refine ⟨_, _, rfl, ?_⟩
  simp only [Stage.turn, Stage.write, Change.run, Service.moveAfterCommit, State.perform, State.put, hv, ne_eq, not_true_eq_false,
    if_false] at h
  cases h
  exact ⟨rfl, Function.update_self _ _ _⟩

/-- Commits and checkpoints, in every run. What a commit published is the workspace at the
version reviewed, in place of the revision expected. A version at the number of its checkpoint
is what the draft holds. A draft about to be saved is not the checkpoint of a version before.
And once a commit moved the workspace, it is as `AfterMove` says. -/
theorem commit_keeps_what_came_after {m : MemoryStore} (hm : m.WF) (hreads : ReadsPayload svc) (hinverse : Inverse svc)
    (h : Runs svc hash m s) :
    (∀ c ∈ s.commits, c.replaced = c.req.expectedPublished ∧ c.snap.version = c.req.version ∧ IsVersion svc s c.snap ∧
      ∀ items, svc.itemsOf c.published = some items → ∀ ref, svc.schema.Same (items.get ref) (c.snap.items.get ref)) ∧
    (∀ w, s.stored = some w → w.checkpointAt = w.version → ∃ r, s.history.get? w.checkpoint = some r ∧
      ∀ items, svc.itemsOf r = some items → ∀ ref, svc.schema.Same (items.get ref) (w.items.get ref)) ∧
    (∀ i who draft builtVersion builtBase attempt outer w base,
      s.pc i = some ⟨who, .put (.checkpoint draft builtVersion builtBase) attempt outer w base⟩ →
      draft ≠ 0 ∧ ∀ v ∈ s.versions, v.checkpoint ≠ draft) ∧
    ∀ i who snap published next committed attempt outer w base now id s',
      s.pc i = some ⟨who, .put (.moveAfterCommit snap published next committed) attempt outer w base⟩ → s.version = w.version →
      s.step svc hash (.turn i now id) = some s' →
      (s.stored = some w ∨ s.versions = [] ∧ w = .unwritten w.base base) ∧
      ∃ c ∈ s.commits, c.snap = snap ∧ c.published.id = published ∧ ∃ w' discards, s'.stored = some w' ∧
        s'.pc i = some ⟨who, .discard discards⟩ ∧ AfterMove svc c w w' discards := by
  have hinv := h.commitInv hm hreads
  have hcontent : ∀ c ∈ s.commits, ∀ items, svc.itemsOf c.published = some items →
      ∀ ref, svc.schema.Same (items.get ref) (c.snap.items.get ref) := by
    intro c hc items hitems
    obtain ⟨rev, hbuild⟩ := (hinv.commits c hc).built
    exact hinverse rev _ _ hbuild _ items rfl hitems
  refine ⟨fun c hc => ?_, fun w hw hat => ?_, ?_, ?_⟩
  · have hfact := hinv.commits c hc
    exact ⟨hfact.replaced, hfact.reviewed.version, hfact.version, hcontent c hc⟩
  · rw [hinv.inv.stored] at hw
    obtain ⟨r, rev, hr, hbuild⟩ := (hinv.checkpoints w (mem_of_head? hw)).saved hat
    exact ⟨r, hr, fun items hitems => hinverse rev _ _ hbuild r items rfl hitems⟩
  · intro i who draft builtVersion builtBase attempt outer w base hpc
    exact hinv.fresh i _ draft hpc rfl
  · intro i who snap published next committed attempt outer w base now id s' hpc hv hstep
    have hread : Read svc s w base := hinv.inv.pcs i _ hpc
    obtain ⟨c, hc, rfl, rfl, hnext⟩ := hinv.pcs i _ hpc
    obtain ⟨out, entry, hrun, hstored, hpc'⟩ := step_move hpc hv hstep
    have hafter := moveAfterCommit_afterMove hnext (hcontent c hc next hnext) hrun
    exact ⟨hinv.inv.current hread hv, c, hc, rfl, rfl, _, _, hstored, hpc', hafter.differs, hafter.taken, hafter.checkpoint,
      hafter.discards⟩

end

lemma roleService_inverse : Inverse roleService := by
  have hlookup : ∀ c ∈ described, described.lookup c.1 = some c.2 := by decide
  intro rev items payload hbuild r now hpayload hitems ref
  obtain ⟨c, hc, rfl⟩ := map_eq_some_iff.mp hbuild
  have hitem : c.2 = items := by simpa using find?_some hc
  have hnow : described.lookup r.payload = some now := hitems
  rw [hpayload, hlookup c (mem_of_find?_eq_some hc), Option.some.injEq, hitem] at hnow
  rw [hnow]
  exact rfl

def committing : List Action :=
  publishElsewhere [1] 1 0 ++ inTurn 0 (.writeItems .edit [⟨roleRef, some (role "y"), some (role "x"), none⟩] none) 4 ++
    inTurn 0 (.commit ⟨1, 1, ""⟩) 6

theorem commit_keeps_what_came_after_role : ∃ s c, Runs roleService (fun _ => "") .empty s ∧ s.commits = [c] ∧
    c.replaced = 1 ∧ c.snap.version = 1 ∧ ∀ items, roleService.itemsOf c.published = some items →
      ∀ ref, roleService.schema.Same (items.get ref) (c.snap.items.get ref) := by
  have hrun : (Transition.run (State.step roleService fun _ => "") (.init .empty) committing).map
      (fun s => s.commits.map fun c => (c.req.expectedPublished, c.req.version)) = some [(1, 1)] := by decide
  obtain ⟨s, hs, hcommits⟩ := map_eq_some_iff.mp hrun
  obtain ⟨c, rest, hlist, hc, hrest⟩ := map_eq_cons_iff.mp hcommits
  obtain ⟨hexpected, hversion⟩ := Prod.mk.inj hc
  have hreach : Runs roleService (fun _ => "") .empty s := Transition.reachable_of_run (.start trivial) hs
  rw [map_eq_nil_iff.mp hrest] at hlist
  have hmem : c ∈ s.commits := by rw [hlist]; simp
  obtain ⟨hreplaced, hsnap, _, hcontent⟩ := (commit_keeps_what_came_after MemoryStore.wf_empty roleService_readsPayload
    roleService_inverse hreach).1 c hmem
  exact ⟨s, c, hreach, hlist, hreplaced.trans hexpected, hsnap.trans hversion, hcontent⟩

/-- Meanwhile a newer revision describes the role in another way, and another console updates the
workspace onto it before the commit moves it. -/
def movedPast : List Action := committing ++ publishElsewhere [3] 3 2 ++ inTurn 1 (.update 3) 4 ++ List.replicate 2 (.turn 0 0 0)

def reviewedRole : Workspace := ⟨1, roleItems "y", [], [], [], 0, 0, 1, "root"⟩

def updatedRole : Workspace :=
  ⟨3, roleItems "y", [⟨0, roleRef, [.field "description"], Service.publishedSource 3, false, none⟩], [], [], 0, 0, 2, "root"⟩

/-- The commit returns what it published. Nothing was written to the role since the version
reviewed, and the workspace differs from its base there. -/
theorem commit_moved_past_differs : ∃ s s' w w' base', Runs roleService (fun _ => "") .empty s ∧
    (∃ snap published next committed attempt outer base,
      s.pc 0 = some ⟨"root", .put (.moveAfterCommit snap published next committed) attempt outer w base⟩ ∧
      w.items = snap.items) ∧
    s.version = w.version ∧ s.step roleService (fun _ => "") (.turn 0 0 0) = some s' ∧ s'.stored = some w' ∧
    ItemsOf roleService s'.history w'.base base' ∧
    ¬ roleService.schema.Same (w'.items.get roleRef) (base'.get roleRef) := by
  have hrun : (Transition.run (State.step roleService fun _ => "") (.init .empty) movedPast).map
      (fun s => (s.version, (s.pc 0).map Task.stage)) =
      some (2, some (.put (.moveAfterCommit reviewedRole 2 (roleItems "y") [roleRef]) 0 0 updatedRole (roleItems "z"))) := by decide
  obtain ⟨s, hs, hfacts⟩ := map_eq_some_iff.mp hrun
  obtain ⟨hversion, hstage⟩ := Prod.mk.inj hfacts
  have hstep : (Transition.run (State.step roleService fun _ => "") (.init .empty) movedPast).map
      (fun s => ((s.pc 0).map Task.who, (s.step roleService (fun _ => "") (.turn 0 0 0)).map fun s' =>
        (s'.stored.map fun w' => (w'.base, w'.items.get roleRef), (s'.history.get? 3).map Revision.payload))) =
      some (some "root", some (some (3, some (role "y")), some [3])) := by rfl
  rw [hs, Option.map_some, Option.some.injEq, Prod.mk.injEq] at hstep
  obtain ⟨hwho, hstep⟩ := hstep
  obtain ⟨s', hs', hfacts⟩ := map_eq_some_iff.mp hstep
  obtain ⟨hstored, hrevision⟩ := Prod.mk.inj hfacts
  obtain ⟨w', hw', hitem⟩ := map_eq_some_iff.mp hstored
  obtain ⟨hbase, hrole⟩ := Prod.mk.inj hitem
  obtain ⟨r, hr, hpayload⟩ := map_eq_some_iff.mp hrevision
  obtain ⟨⟨who, stage⟩, hpc, rfl⟩ := map_eq_some_iff.mp hstage
  rw [hpc, Option.map_some, Option.some.injEq] at hwho
  subst hwho
  have hitems : roleService.itemsOf r = some (roleItems "z") := by
    change described.lookup r.payload = _
    rw [hpayload]
    rfl
  refine ⟨s, s', updatedRole, w', roleItems "z", Transition.reachable_of_run (.start trivial) hs,
    ⟨reviewedRole, 2, roleItems "y", [roleRef], 0, 0, roleItems "z", hpc, rfl⟩, hversion, hs', hw', ?_, ?_⟩
  · rw [hbase]
    exact ⟨r, r, (MemoryStore.get?_mem hr).2, hr, rfl, hitems⟩
  · rw [hrole]
    decide

end SqlMcpServer.Workspaces
