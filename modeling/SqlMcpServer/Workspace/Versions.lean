import SqlMcpServer.Revision.Laws
import SqlMcpServer.Workspace.Operations

namespace SqlMcpServer.Workspaces

open List
open Option (map_eq_some_iff bind_eq_some_iff)

open SqlMcpServer.Revisions (Revision Payload MemoryStore Op Caller)

/-- The history goes on: revisions stay, with their content. -/
structure Later (m m' : MemoryStore) : Prop where
  wf : m'.WF
  kept : ∀ id r, m.get? id = some r → ∃ r', m'.get? id = some r' ∧ r'.payload = r.payload

variable {m : MemoryStore}

lemma Later.refl (h : m.WF) : Later m m := ⟨h, fun _ r hr => ⟨r, hr, rfl⟩⟩

lemma later_of_grows {m' : MemoryStore} (h : MemoryStore.Grows m m') : Later m m' := by
  refine ⟨h.wf, fun id r hr => ?_⟩
  obtain ⟨hmem, rfl⟩ := MemoryStore.get?_mem hr
  obtain ⟨r', hr', hb⟩ := h.kept r hmem
  exact ⟨r', by rw [← hb.id]; exact Keyed.find_of_mem h.wf.ids hr', hb.payload⟩

lemma later_apply (h : m.WF) (hash : Payload → String) (now : Int) {o : Op}
    (hop : MemoryStore.Fits o) : Later m (m.apply hash now o).2 := by
  rcases MemoryStore.apply_sound hash now o h hop with ⟨e, he⟩ | ⟨_, hgrows⟩
  · rw [he]
    exact .refl h
  · exact later_of_grows hgrows

def Effect.Next (hash : Payload → String) (now : Int) (s : State) (st : Stage) : Effect → Prop
  | .goto next => next = some st
  | .history op next => (∃ r, (s.history.apply hash now op).1 = .ok r ∧ next r = some st) ∨ next none = some st
  | .publish req _ draft next =>
    (∃ rev, (s.history.publish now draft req.expectedPublished).1 = .ok rev ∧ next rev = some st) ∨ st = .discard [draft]
  | .put w expected entry done changed => (s.put w expected entry).isSome ∧ done = some st ∨ changed = some st

/-- A change of `w` makes `w'`, and is logged as `e`. -/
def Applied (svc : Service) (change : Change) (base : Snapshot) (w w' : Workspace) (e : LogEntry) : Prop :=
  ∃ id who out entry, change.run svc id w base = .write out entry ∧
    w' = { out with updatedBy := who, version := w.version + 1 } ∧ e = { entry with writer := who, version := w.version + 1 }

variable {w : Workspace} {entry : LogEntry} {a : Action} {id : Nat}

section
variable {svc : Service} {hash : Payload → String} {now : Int} {s s' : State} {i j : Caller} {who : String}

lemma goto_self {next : Option Stage} {t : Task} (h : (s.goto i who next).pc i = some t) : next = some t.stage ∧ t.who = who := by
  simp only [State.goto, Function.update_self, map_eq_some_iff] at h
  obtain ⟨st, hst, rfl⟩ := h
  exact ⟨hst, rfl⟩

lemma goto_other {next : Option Stage} (h : j ≠ i) : (s.goto i who next).pc j = s.pc j := Function.update_of_ne h _ _

lemma put_eq_some {expected : Int} (h : s.put w expected entry = some s') :
    s.version = expected ∧ s' = { s with
      stored := some { w with version := expected + 1 }
      log := { entry with version := expected + 1 } :: s.log
      versions := { w with version := expected + 1 } :: s.versions } := by
  unfold State.put at h
  split_ifs at h with hv
  · cases h
    exact ⟨not_not.mp hv, rfl⟩

/-- What a step of a call leaves, before the call goes on with `next`. -/
structure Performed (svc : Service) (hash : Payload → String) (now : Int) (id : Nat) (s : State) (t : Task) (s₁ : State)
    (next : Option Stage) : Prop where
  pc : s₁.pc = s.pc
  leads : ∀ st, next = some st → (t.stage.turn svc id t.who s.history s.stored).Next hash now s st
  history : s₁.history = s.history ∨ ∃ op, MemoryStore.Fits op ∧ s₁.history = (s.history.apply hash now op).2
  written : (s₁.stored = s.stored ∧ s₁.log = s.log ∧ s₁.versions = s.versions) ∨
    ∃ change attempt outer w base w' e, t.stage = .put change attempt outer w base ∧ Applied svc change base w w' e ∧
      s.version = w.version ∧ s₁.stored = some w' ∧ s₁.log = e :: s.log ∧ s₁.versions = w' :: s.versions ∧ next = change.done w
  commits : s₁.commits = s.commits ∨ ∃ req snap base draft rev, t.stage = .publish req snap base draft ∧
    (s.history.publish now draft req.expectedPublished).1 = .ok rev ∧
    s₁.commits = ⟨req, snap, rev, s.history.publishedID⟩ :: s.commits

lemma Performed.goto {t : Task} {next : Option Stage} (h : t.stage.turn svc id t.who s.history s.stored = .goto next) :
    Performed svc hash now id s t s next :=
  ⟨rfl, fun st hst => by rw [h]; exact hst, .inl rfl, .inl ⟨rfl, rfl, rfl⟩, .inl rfl⟩

lemma performed_history {t : Task} {op : Op} {next : Option Revision → Option Stage} (hop : MemoryStore.Fits op)
    (h : t.stage.turn svc id t.who s.history s.stored = .history op next) :
    Performed svc hash now id s t { s with history := (s.history.apply hash now op).2 }
      (match (s.history.apply hash now op).1 with
      | .ok rev => next rev
      | .error _ => next none) := by
  refine ⟨rfl, fun st hst => ?_, .inr ⟨op, hop, rfl⟩, .inl ⟨rfl, rfl, rfl⟩, .inl rfl⟩
  rw [h]
  split at hst
  · exact .inl ⟨_, by assumption, hst⟩
  · exact .inr hst

lemma exists_performed (t : Task) :
    ∃ s₁ next, s.perform hash now i t.who (t.stage.turn svc id t.who s.history s.stored) = s₁.goto i t.who next ∧
      Performed svc hash now id s t s₁ next := by
  obtain ⟨who, st⟩ := t
  cases st with
  | create save snap base payload => exact ⟨_, _, rfl, performed_history nofun rfl⟩
  | discard ids =>
    cases ids with
    | nil => exact ⟨s, _, rfl, .goto rfl⟩
    | cons draft ids => exact ⟨_, _, rfl, performed_history nofun rfl⟩
  | publish req snap base draft =>
    simp only [Stage.turn, State.perform]
    split <;> rename_i r m hpub
    · exact ⟨_, _, rfl, rfl, fun st hst => .inl ⟨r, by rw [hpub], hst⟩,
        .inr ⟨.publish draft req.expectedPublished, nofun, congrArg Prod.snd hpub.symm⟩, .inl ⟨rfl, rfl, rfl⟩,
        .inr ⟨req, snap, base, draft, r, rfl, by rw [hpub], rfl⟩⟩
    · exact ⟨_, _, rfl, rfl, fun st hst => .inr (Option.some.inj hst).symm,
        .inr ⟨.publish draft req.expectedPublished, nofun, congrArg Prod.snd hpub.symm⟩, .inl ⟨rfl, rfl, rfl⟩, .inl rfl⟩
  | put change attempt outer w base =>
    have hturn : (Stage.put change attempt outer w base).turn svc id who s.history s.stored =
        Stage.write svc id who change attempt outer w base := rfl
    simp only [hturn]
    unfold Stage.write at hturn ⊢
    cases hrun : change.run svc id w base with
    | unchanged => exact ⟨s, _, rfl, .goto (by rw [hturn, hrun])⟩
    | failed e => exact ⟨s, _, rfl, .goto (by rw [hturn, hrun])⟩
    | write out entry =>
      rw [hrun] at hturn
      simp only [State.perform]
      split
      · rename_i s₁ hput
        obtain ⟨hv, rfl⟩ := put_eq_some hput
        refine ⟨_, _, rfl, rfl, fun st hst => ?_, .inl rfl, .inr ⟨change, attempt, outer, w, base, _, _, rfl,
          ⟨id, who, out, entry, hrun, rfl, rfl⟩, hv, rfl, rfl, rfl, rfl⟩, .inl rfl⟩
        rw [hturn]
        exact .inl ⟨by rw [hput]; rfl, hst⟩
      · refine ⟨s, _, rfl, rfl, fun st hst => ?_, .inl rfl, .inl ⟨rfl, rfl, rfl⟩, .inl rfl⟩
        rw [hturn]
        exact .inr hst
  | basedOn d rev seen =>
    have hgoto : ∃ next, (Stage.basedOn d rev seen).turn svc id who s.history s.stored = .goto next := by
      simp only [Stage.turn]
      split_ifs <;> exact ⟨_, rfl⟩
    obtain ⟨next, hnext⟩ := hgoto
    exact ⟨s, next, by rw [hnext]; rfl, .goto hnext⟩
  | _ => exact ⟨s, _, rfl, .goto rfl⟩

/-- What a step can do. -/
inductive Does (svc : Service) (hash : Payload → String) (s : State) : State → Prop
  | elsewhere {now : Int} {op : Op} (hop : MemoryStore.Fits op) :
      Does svc hash s { s with history := (s.history.apply hash now op).2 }
  | call (i : Caller) (who : String) (c : Call) : Does svc hash s (s.goto i who (some c.start))
  | fail {i : Caller} {t : Task} (hpc : s.pc i = some t) : Does svc hash s (s.goto i t.who t.stage.fail)
  | turn {i : Caller} {t : Task} {now : Int} {id : Nat} {s₁ : State} {next : Option Stage} (hpc : s.pc i = some t)
      (heq : s.perform hash now i t.who (t.stage.turn svc id t.who s.history s.stored) = s₁.goto i t.who next)
      (h : Performed svc hash now id s t s₁ next) : Does svc hash s (s₁.goto i t.who next)

lemma step_does (h : s.step svc hash a = some s') : Does svc hash s s' := by
  cases a with
  | call i who c =>
    simp only [State.step] at h
    split_ifs at h
    cases h
    exact .call i who c
  | turn i now id =>
    obtain ⟨t, hpc, rfl⟩ := map_eq_some_iff.mp h
    obtain ⟨s₁, next, heq, hperformed⟩ := @exists_performed id svc hash now s i t
    rw [heq]
    exact .turn hpc heq hperformed
  | fail i =>
    obtain ⟨t, hpc, rfl⟩ := map_eq_some_iff.mp h
    exact .fail hpc
  | elsewhere now op =>
    simp only [State.step] at h
    split at h
    · cases h
    · rename_i hop
      cases h
      exact .elsewhere fun revs hrevs => absurd hrevs (hop revs)

lemma step_pc (h : s.step svc hash a = some s') : ∃ i, (∀ j, j ≠ i → s'.pc j = s.pc j) ∧
    ∀ t', s'.pc i = some t' → s.pc i = some t' ∨ (∃ c, t'.stage = Call.start c) ∨ ∃ t, s.pc i = some t ∧ t.who = t'.who ∧
      (t.stage.fail = some t'.stage ∨ ∃ now id, s' = s.perform hash now i t.who (t.stage.turn svc id t.who s.history s.stored) ∧
        (t.stage.turn svc id t.who s.history s.stored).Next hash now s t'.stage) := by
  cases step_does h with
  | elsewhere hop => exact ⟨0, fun _ _ => rfl, fun t' ht' => .inl ht'⟩
  | call i who c =>
    refine ⟨i, fun j hj => goto_other hj, fun t' ht' => ?_⟩
    exact .inr (.inl ⟨c, (Option.some.inj (goto_self ht').1).symm⟩)
  | @fail i t hpc =>
    refine ⟨i, fun j hj => goto_other hj, fun t' ht' => ?_⟩
    obtain ⟨hnext, hwho⟩ := goto_self ht'
    exact .inr (.inr ⟨t, hpc, hwho.symm, .inl hnext⟩)
  | @turn i t now id s₁ next hpc heq hdone =>
    refine ⟨i, fun j hj => by rw [goto_other hj, hdone.pc], fun t' ht' => ?_⟩
    obtain ⟨hnext, hwho⟩ := goto_self ht'
    exact .inr (.inr ⟨t, hpc, hwho.symm, .inr ⟨now, id, heq.symm, hdone.leads _ hnext⟩⟩)

lemma step_writes (h : s.step svc hash a = some s') :
    (s'.stored = s.stored ∧ s'.log = s.log ∧ s'.versions = s.versions) ∨
      ∃ i who change attempt outer w base w' e, s.pc i = some ⟨who, .put change attempt outer w base⟩ ∧
        Applied svc change base w w' e ∧ s.version = w.version ∧
        s'.stored = some w' ∧ s'.log = e :: s.log ∧ s'.versions = w' :: s.versions ∧
        s'.pc = Function.update s.pc i ((change.done w).map (Task.mk who)) := by
  cases step_does h with
  | elsewhere _ | call _ _ _ | fail _ => exact .inl ⟨rfl, rfl, rfl⟩
  | @turn i t now id s₁ next hpc heq hdone =>
    rcases hdone.written with hsame | ⟨change, attempt, outer, w, base, w', e, hst, happlied, hv, hstored, hlog, hvs, rfl⟩
    · exact .inl hsame
    · refine .inr ⟨i, t.who, change, attempt, outer, w, base, w', e, ?_, happlied, hv, hstored, hlog, hvs, ?_⟩
      · rw [hpc, ← hst]
      · rw [State.goto, hdone.pc]

lemma step_subset (h : s.step svc hash a = some s') : s.versions ⊆ s'.versions := by
  rcases step_writes h with ⟨_, _, hvs⟩ | ⟨_, _, _, _, _, _, _, w', _, _, _, _, _, _, hvs, _⟩
  · rw [hvs]
    exact List.Subset.refl _
  · rw [hvs]
    exact subset_cons_self _ _

lemma step_later (hwf : s.history.WF) (h : s.step svc hash a = some s') : Later s.history s'.history := by
  cases step_does h with
  | call _ _ _ | fail _ => exact .refl hwf
  | elsewhere hop => exact later_apply hwf hash _ hop
  | @turn i t now id s₁ next hpc heq hdone =>
    change Later s.history s₁.history
    rcases hdone.history with hsame | ⟨op, hop, hm⟩
    · rw [hsame]
      exact .refl hwf
    · rw [hm]
      exact later_apply hwf hash now hop

end

/-- Whether a call has read no workspace, or is done with it. -/
def Stage.isBare : Stage → Bool
  | .getTarget .. | .getDraft _ | .basedOn .. | .mergeOnto .. | .mergeFrom .. | .getRevision .. | .loadOnto .. | .loadItems ..
  | .discard _ => true
  | _ => false

variable {change : Change}

section
variable {st st' : Stage}

lemma failed_bare {e : OpError} {outer : Nat} (h : change.failed e outer = some st) : st.isBare = true := by
  cases change <;> simp only [Change.failed] at h
  all_goals first
    | cases h
      rfl
    | split_ifs at h
      cases h
      rfl
    | cases h

lemma done_bare (h : change.done w = some st) : st.isBare = true := by
  cases change <;> simp only [Change.done] at h
  all_goals first
    | cases h
      rfl
    | split_ifs at h
      cases h
      rfl
    | cases h

lemma unloaded_bare {why : Why} {e : OpError} (h : Stage.unloaded e why = some st) : st.isBare = true := by
  cases why with
  | apply change attempt outer => exact failed_bare h
  | save save => cases h

lemma fail_bare (h : st.fail = some st') : st'.isBare = true := by
  cases st with
  | readWorkspace why => exact unloaded_bare h
  | readPublished why => exact unloaded_bare h
  | readBase why w id => exact unloaded_bare h
  | put change attempt outer w base => exact failed_bare h
  | publish req snap base draft =>
    cases h
    rfl
  | discard ids =>
    cases ids with
    | nil => cases h
    | cons id ids =>
      cases h
      rfl
  | _ => cases h

end

/-- Whether a change holds nothing of a workspace read before. -/
def Change.isPlain : Change → Bool
  | .checkpoint .. | .moveAfterCommit .. => false
  | _ => true

/-- Where a step of a call leads, and what it read. -/
inductive Turns (svc : Service) (hash : Payload → String) (now : Int) (s : State) (who : String) : Stage → Stage → Prop
  | bare {st st' : Stage} (h : st'.isBare = true) : Turns svc hash now s who st st'
  | plain {st : Stage} {change : Change} {outer : Nat} (h : change.isPlain = true) :
      Turns svc hash now s who st (.readWorkspace (.apply change 0 outer))
  | kept {why : Why} {w : Workspace} (h : s.stored = some w) :
      Turns svc hash now s who (.readWorkspace why) (.readBase why (some w) w.base)
  | absent {why : Why} : Turns svc hash now s who (.readWorkspace why) (.readPublished why)
  | unwritten {why : Why} {id : Int} : Turns svc hash now s who (.readPublished why) (.readBase why none id)
  | loaded {why : Why} {w : Option Workspace} {id : Int} {items : Snapshot} {st' : Stage}
      (hitems : Stage.items svc s.history id = some items)
      (h : Stage.loaded svc (w.getD (.unwritten id items)) items why = some st') :
      Turns svc hash now s who (.readBase why w id) st'
  | again {change : Change} {attempt outer : Nat} {w : Workspace} {base : Snapshot} :
      Turns svc hash now s who (.put change attempt outer w base) (.readWorkspace (.apply change (attempt + 1) outer))
  | expected {req : CommitRequest} {snap : Workspace} {base : Snapshot} :
      Turns svc hash now s who (.expect req snap base) (.build (.commit req) snap base)
  | built {save : Save} {snap : Workspace} {base : Snapshot} {rev : Revision} {payload : Payload}
      (h : svc.build rev snap.items = some payload) :
      Turns svc hash now s who (.build save snap base) (.create save snap base payload)
  | saved {save : Save} {snap : Workspace} {base : Snapshot} {payload : Payload} {draft : Revision}
      (h : (s.history.apply hash now (.create ⟨snap.base, payload, who, save.comment⟩)).1 = .ok (some draft)) :
      Turns svc hash now s who (.create save snap base payload) (Stage.saved snap base draft save)
  | committed {req : CommitRequest} {snap : Workspace} {base next : Snapshot} {draft : Int} {rev : Revision}
      (h : (s.history.publish now draft req.expectedPublished).1 = .ok rev) (hnext : svc.itemsOf rev = some next) :
      Turns svc hash now s who (.publish req snap base draft)
        (.readWorkspace (.apply (.moveAfterCommit snap rev.id next (svc.schema.changes base snap.items)) 0 0))

lemma turns_of_next {svc : Service} {hash : Payload → String} {now : Int} {s : State} {who : String} {st st' : Stage}
    (h : (st.turn svc id who s.history s.stored).Next hash now s st') : Turns svc hash now s who st st' := by
  cases st with
  | getTarget to_ reset =>
    obtain ⟨next, _, rfl⟩ := map_eq_some_iff.mp h
    exact .plain (by cases reset <;> rfl)
  | getDraft draft =>
    obtain ⟨d, _, rfl⟩ := map_eq_some_iff.mp h
    exact .bare rfl
  | basedOn d rev seen =>
    simp only [Stage.turn] at h
    split_ifs at h
    · cases h
      exact .bare rfl
    · obtain ⟨parent, _, rfl⟩ := map_eq_some_iff.mp h
      exact .bare rfl
    · cases h
      exact .bare rfl
  | mergeOnto d from_ outer =>
    obtain ⟨published, _, h⟩ := bind_eq_some_iff.mp h
    obtain ⟨draftItems, _, h⟩ := bind_eq_some_iff.mp h
    obtain ⟨onto, _, rfl⟩ := map_eq_some_iff.mp h
    exact .bare rfl
  | mergeFrom d from_ published draftItems onto outer =>
    obtain ⟨fromItems, _, rfl⟩ := map_eq_some_iff.mp h
    exact .plain rfl
  | getRevision to_ keep =>
    obtain ⟨rev, _, h⟩ := bind_eq_some_iff.mp h
    obtain ⟨content, _, rfl⟩ := map_eq_some_iff.mp h
    exact .bare rfl
  | loadOnto rev content keep outer =>
    obtain ⟨published, _, rfl⟩ := map_eq_some_iff.mp h
    exact .bare rfl
  | loadItems rev content keep published outer =>
    obtain ⟨onto, _, rfl⟩ := map_eq_some_iff.mp h
    exact .plain rfl
  | readWorkspace why =>
    simp only [Stage.turn, Effect.Next] at h
    split at h
    · rename_i w hw
      cases h
      exact .kept hw
    · cases h
      exact .absent
  | readPublished why =>
    simp only [Stage.turn, Effect.Next] at h
    split at h
    · cases h
      exact .unwritten
    · exact .bare (unloaded_bare h)
  | readBase why w baseID =>
    simp only [Stage.turn, Effect.Next] at h
    split at h
    · exact .loaded (by assumption) h
    · exact .bare (unloaded_bare h)
  | put change attempt outer w base =>
    simp only [Stage.turn, Stage.write] at h
    split at h
    · exact .bare (done_bare h)
    · exact .bare (failed_bare h)
    · rcases h with ⟨_, h⟩ | h
      · exact .bare (done_bare h)
      · split_ifs at h
        · cases h
          exact .again
        · exact .bare (failed_bare h)
  | expect req snap base =>
    obtain ⟨_, _, rfl⟩ := map_eq_some_iff.mp h
    exact .expected
  | build save snap base =>
    obtain ⟨payload, hpayload, rfl⟩ := map_eq_some_iff.mp h
    obtain ⟨rev, _, hbuild⟩ := bind_eq_some_iff.mp hpayload
    exact .built hbuild
  | create save snap base payload =>
    rcases h with ⟨r, hr, h⟩ | h
    · obtain ⟨draft, rfl, rfl⟩ := map_eq_some_iff.mp h
      exact .saved hr
    · cases h
  | publish req snap base draft =>
    rcases h with ⟨rev, hrev, h⟩ | rfl
    · obtain ⟨next, hnext, rfl⟩ := map_eq_some_iff.mp h
      exact .committed hrev hnext
    · exact .bare rfl
  | discard ids =>
    cases ids with
    | nil => cases h
    | cons id ids =>
      rcases h with ⟨_, _, h⟩ | h <;> cases h <;> exact .bare rfl

def ItemsOf (svc : Service) (m : MemoryStore) (id : Int) (items : Snapshot) : Prop :=
  ∃ rev r, rev.id = id ∧ m.get? id = some r ∧ r.payload = rev.payload ∧ svc.itemsOf rev = some items

/-- A workspace as loaded, with its base's items: a version, or nothing was written to it. -/
structure Read (svc : Service) (s : State) (w : Workspace) (base : Snapshot) : Prop where
  known : w ∈ s.versions ∨ w = .unwritten w.base base
  base : ItemsOf svc s.history w.base base

def Stage.Fact (svc : Service) (s : State) : Stage → Prop
  | .readBase _ (some w) id => w ∈ s.versions ∧ id = w.base
  | .put _ _ _ w base => Read svc s w base
  | .expect _ snap base => Read svc s snap base
  | .build _ snap base => Read svc s snap base
  | .create _ snap base _ => Read svc s snap base
  | .publish _ snap base _ => Read svc s snap base
  | _ => True

variable {base : Snapshot}

section
variable {svc : Service} {hash : Payload → String} {now : Int} {s s' : State} {who : String} {st st' : Stage}

lemma ItemsOf.later {m' : MemoryStore} {id : Int} {items : Snapshot} (hlater : Later m m') (h : ItemsOf svc m id items) :
    ItemsOf svc m' id items := by
  obtain ⟨rev, r, hid, hr, hpayload, hitems⟩ := h
  obtain ⟨r', hr', hpayload'⟩ := hlater.kept id r hr
  exact ⟨rev, r', hid, hr', hpayload'.trans hpayload, hitems⟩

lemma itemsOf_of_items {id : Int} {items : Snapshot} (h : Stage.items svc m id = some items) :
    ItemsOf svc m id items := by
  obtain ⟨rev, hrev, hitems⟩ := bind_eq_some_iff.mp h
  exact ⟨rev, rev, (MemoryStore.get?_mem hrev).2, hrev, rfl, hitems⟩

lemma Read.later (hlater : Later s.history s'.history) (hsub : s.versions ⊆ s'.versions)
    (h : Read svc s w base) : Read svc s' w base :=
  ⟨h.known.imp_left fun hw => hsub hw, h.base.later hlater⟩

lemma Stage.Fact.later (hlater : Later s.history s'.history) (hsub : s.versions ⊆ s'.versions) (h : st.Fact svc s) :
    st.Fact svc s' := by
  cases st with
  | readBase why w id =>
    cases w with
    | none => trivial
    | some w => exact ⟨hsub h.1, h.2⟩
  | put change attempt outer w base => exact Read.later hlater hsub h
  | expect req snap base => exact Read.later hlater hsub h
  | build save snap base => exact Read.later hlater hsub h
  | create save snap base payload => exact Read.later hlater hsub h
  | publish req snap base draft => exact Read.later hlater hsub h
  | _ => trivial

lemma start_fact (c : Call) : c.start.Fact svc s := by
  cases c <;> trivial

lemma Stage.Fact.of_bare (h : st.isBare = true) : st.Fact svc s := by
  cases st <;> trivial

lemma loaded_fact {why : Why} (hread : Read svc s w base)
    (h : Stage.loaded svc w base why = some st) : st.Fact svc s := by
  cases why with
  | apply change attempt outer =>
    cases h
    exact hread
  | save save =>
    cases save <;> simp only [Stage.loaded] at h <;> split_ifs at h <;> cases h <;> exact hread

lemma turn_fact (hstored : s.stored = s.versions.head?) (hfact : st.Fact svc s) (h : Turns svc hash now s who st st') :
    st'.Fact svc s := by
  cases h with
  | bare h => exact .of_bare h
  | plain _ => trivial
  | kept h =>
    rw [h] at hstored
    exact ⟨mem_of_head? hstored.symm, rfl⟩
  | absent => trivial
  | unwritten => trivial
  | @loaded why w id items st' hitems h =>
    refine loaded_fact ?_ h
    cases w with
    | none => exact ⟨.inr rfl, itemsOf_of_items hitems⟩
    | some w =>
      obtain ⟨hmem, rfl⟩ := hfact
      exact ⟨.inl hmem, itemsOf_of_items hitems⟩
  | again => trivial
  | expected => exact hfact
  | built h => exact hfact
  | @saved save snap base payload draft h =>
    cases save with
    | checkpoint comment => trivial
    | commit req => exact hfact
  | committed h hnext => trivial

end

/-- The versions of a workspace and its log, newest first: each was made by a change of the one
before it, the first of a workspace nothing was written to. -/
inductive Made (svc : Service) (m : MemoryStore) : List Workspace → List LogEntry → Prop
  | none : Made svc m [] []
  | first {id : Int} {base : Snapshot} {change : Change} {w' : Workspace} {e : LogEntry} (hitems : ItemsOf svc m id base)
      (h : Applied svc change base (.unwritten id base) w' e) : Made svc m [w'] [e]
  | next {w : Workspace} {ws : List Workspace} {es : List LogEntry} {base : Snapshot} {change : Change} {w' : Workspace}
      {e : LogEntry} (hmade : Made svc m (w :: ws) es) (hitems : ItemsOf svc m w.base base)
      (h : Applied svc change base w w' e) : Made svc m (w' :: w :: ws) (e :: es)

/-- `n`, …, 1. -/
def countdown : Nat → List Int
  | 0 => []
  | n + 1 => (n + 1 : Int) :: countdown n

structure Inv (svc : Service) (s : State) : Prop where
  wf : s.history.WF
  stored : s.stored = s.versions.head?
  made : Made svc s.history s.versions s.log
  pcs : ∀ i t, s.pc i = some t → t.stage.Fact svc s

variable {ws : List Workspace} {es : List LogEntry} {w' : Workspace}

section
variable {svc : Service} {hash : Payload → String} {s s' : State}

lemma Made.later {m' : MemoryStore} (hlater : Later m m')
    (h : Made svc m ws es) : Made svc m' ws es := by
  induction h with
  | none => exact .none
  | first hitems h => exact .first (hitems.later hlater) h
  | next _ hitems h ih => exact .next ih (hitems.later hlater) h

lemma Applied.version {e : LogEntry} (h : Applied svc change base w w' e) :
    w'.version = w.version + 1 ∧ e.version = w.version + 1 := by
  obtain ⟨id, who, out, entry, _, rfl, rfl⟩ := h
  exact ⟨rfl, rfl⟩

lemma Made.countdown (h : Made svc m ws es) :
    ws.map Workspace.version = countdown ws.length ∧ es.map LogEntry.version = countdown ws.length := by
  induction h with
  | none => exact ⟨rfl, rfl⟩
  | first _ h =>
    obtain ⟨hw, he⟩ := h.version
    simp [Workspaces.countdown, hw, he, Workspace.unwritten]
  | next hmade _ h ih =>
    obtain ⟨hw, he⟩ := h.version
    obtain ⟨hws, hes⟩ := ih
    rw [map_cons, length_cons, Workspaces.countdown] at hws
    obtain ⟨hhead, htail⟩ := List.cons.inj hws
    rw [map_cons, map_cons, map_cons, htail, hes, hw, he, hhead]
    simp [Workspaces.countdown]

lemma mem_countdown {n : Nat} {v : Int} (h : v ∈ countdown n) : 1 ≤ v ∧ v ≤ n := by
  induction n with
  | zero => cases h
  | succ n ih =>
    rcases mem_cons.mp h with rfl | h
    · omega
    · have := ih h
      omega

lemma Made.newest
    (h : Made svc m (w :: ws) es) (hmem : w' ∈ w :: ws) (hv : w'.version = w.version) : w' = w := by
  rcases mem_cons.mp hmem with rfl | hmem
  · rfl
  · have hcount := h.countdown.1
    rw [map_cons, length_cons, Workspaces.countdown] at hcount
    obtain ⟨hhead, htail⟩ := List.cons.inj hcount
    have hle : w'.version ∈ Workspaces.countdown ws.length := htail ▸ mem_map_of_mem hmem
    have := mem_countdown hle
    omega

lemma Inv.current (hinv : Inv svc s) (hread : Read svc s w base) (hv : s.version = w.version) :
    s.stored = some w ∨ s.versions = [] ∧ w = .unwritten w.base base := by
  have hmade := hinv.made
  have hcount := hmade.countdown.1
  unfold State.version at hv
  rw [hinv.stored] at hv ⊢
  cases hvs : s.versions with
  | nil =>
    rcases hread.known with hmem | hw
    · rw [hvs] at hmem
      cases hmem
    · exact .inr ⟨rfl, hw⟩
  | cons w₀ ws =>
    rw [hvs] at hmade hv hcount
    simp only [head?_cons, Option.map_some, Option.getD_some] at hv
    rcases hread.known with hmem | hw
    · rw [hvs] at hmem
      rw [hmade.newest hmem hv.symm]
      exact .inl rfl
    · -- A workspace nothing was written to has version 0, which no version kept has.
      have hzero : w.version = 0 := by rw [hw]; rfl
      have hmem : w₀.version ∈ countdown (w₀ :: ws).length := hcount ▸ mem_map_of_mem mem_cons_self
      have := mem_countdown hmem
      omega

lemma Inv.made_cons (hinv : Inv svc s) {e : LogEntry}
    (hread : Read svc s w base) (hv : s.version = w.version) (h : Applied svc change base w w' e) :
    Made svc s.history (w' :: s.versions) (e :: s.log) := by
  have hmade := hinv.made
  rcases hinv.current hread hv with hstored | ⟨hnil, hw⟩
  · rw [hinv.stored] at hstored
    generalize s.versions = ws at hmade hstored
    cases ws with
    | nil => cases hstored
    | cons w₀ ws =>
      cases hstored
      exact .next hmade hread.base h
  · rw [hnil] at hmade ⊢
    cases hlog : s.log with
    | nil =>
      rw [hw] at h
      exact .first hread.base h
    | cons e es =>
      rw [hlog] at hmade
      cases hmade

lemma Inv.step (hinv : Inv svc s) (h : s.step svc hash a = some s') :
    Inv svc s' := by
  have hlater := step_later hinv.wf h
  have hwrites := step_writes h
  have hsub := step_subset h
  refine ⟨hlater.wf, ?_, ?_, fun j t' ht' => ?_⟩
  · rcases hwrites with ⟨hst, _, hvs⟩ | ⟨_, _, _, _, _, _, _, w', _, _, _, _, hst, _, hvs, _⟩
    · rw [hst, hvs]
      exact hinv.stored
    · rw [hst, hvs]
      rfl
  · rcases hwrites with ⟨_, hlog, hvs⟩ | ⟨i, who, change, attempt, outer, w, base, w', e, hpc, happlied, hv, _, hlog, hvs, _⟩
    · rw [hlog, hvs]
      exact hinv.made.later hlater
    · rw [hlog, hvs]
      have hread : Read svc s w base := hinv.pcs i _ hpc
      exact (hinv.made_cons hread hv happlied).later hlater
  · obtain ⟨i, hother, hmoved⟩ := step_pc h
    by_cases hj : j = i
    case neg =>
      rw [hother j hj] at ht'
      exact (hinv.pcs j t' ht').later hlater hsub
    subst hj
    rcases hmoved t' ht' with ht | ⟨c, hc⟩ | ⟨t, ht, _, hfail | ⟨now, id, _, hnext⟩⟩
    · exact (hinv.pcs j t' ht).later hlater hsub
    · rw [hc]
      exact start_fact c
    · exact .of_bare (fail_bare hfail)
    · exact (turn_fact hinv.stored (hinv.pcs j t ht) (turns_of_next hnext)).later hlater hsub

lemma inv_init (h : m.WF) : Inv svc (.init m) :=
  ⟨h, rfl, .none, fun _ _ hpc => absurd hpc (by simp [State.init])⟩

abbrev Runs (svc : Service) (hash : Payload → String) (m : MemoryStore) (s : State) : Prop :=
  Transition.Reachable (State.step svc hash) (fun _ => True) (.init m) s

lemma Runs.inv (hm : m.WF) (h : Runs svc hash m s) : Inv svc s :=
  h.invariant (inv_init hm) fun _ _ _ hinv _ _ hstep => hinv.step hstep

end

/-- Versions and their log entries, newest first, from a workspace on. -/
inductive Chain (svc : Service) (root : Workspace) : List Workspace → List LogEntry → Prop
  | none : Chain svc root [] []
  | cons {ws : List Workspace} {es : List LogEntry} {change : Change} {base : Snapshot} {w' : Workspace} {e : LogEntry}
      (hchain : Chain svc root ws es) (h : Applied svc change base (ws.head?.getD root) w' e) : Chain svc root (w' :: ws) (e :: es)

section
variable {svc : Service} {m : MemoryStore} {root : Workspace} {ws : List Workspace} {es : List LogEntry}

lemma Made.chain (h : Made svc m ws es) (hne : ws ≠ []) :
    ∃ id base, ItemsOf svc m id base ∧ Chain svc (.unwritten id base) ws es := by
  induction h with
  | none => exact absurd rfl hne
  | first hitems h => exact ⟨_, _, hitems, .cons .none h⟩
  | next _ _ h ih =>
    obtain ⟨id, base, hitems, hchain⟩ := ih (cons_ne_nil _ _)
    exact ⟨id, base, hitems, .cons hchain h⟩

lemma Chain.versions (h : Chain svc root ws es) (hroot : root.version = 0) :
    ws.map Workspace.version = countdown ws.length ∧ (ws.head?.getD root).version = ws.length := by
  induction h with
  | none => exact ⟨rfl, hroot⟩
  | cons hchain h ih =>
    obtain ⟨hws, hhead⟩ := ih
    obtain ⟨hw, _⟩ := h.version
    rw [map_cons, length_cons, hws, hw, hhead]
    exact ⟨rfl, by simp [hw, hhead]⟩

lemma countdown_nodup (n : Nat) : (countdown n ++ [0]).Nodup := by
  induction n with
  | zero => simp [countdown]
  | succ n ih =>
    refine nodup_cons.mpr ⟨fun hmem => ?_, ih⟩
    rcases mem_append.mp hmem with hmem | hmem
    · have := mem_countdown hmem
      omega
    · have := mem_singleton.mp hmem
      omega

lemma Chain.unique (h : Chain svc root ws es) (hroot : root.version = 0) (hw : w ∈ ws ++ [root])
    (hw' : w' ∈ ws ++ [root]) (hv : w.version = w'.version) : w = w' := by
  have hnodup : ((ws ++ [root]).map Workspace.version).Nodup := by
    rw [map_append, (h.versions hroot).1, map_singleton, hroot]
    exact countdown_nodup _
  exact inj_on_of_nodup_map hnodup hw hw' hv

end

def ReadsPayload (svc : Service) : Prop :=
  ∀ r r' items items', r.payload = r'.payload → svc.itemsOf r = some items → svc.itemsOf r' = some items' → items = items'

/-- A workspace as some console reads it: a version kept, or one nothing was written to, on a
revision. -/
def IsVersion (svc : Service) (s : State) (w : Workspace) : Prop :=
  w ∈ s.versions ∨ ∃ base, w = .unwritten w.base base ∧ ItemsOf svc s.history w.base base

section
variable {svc : Service} {hash : Payload → String} {m : MemoryStore} {s : State} {wa wb : Workspace}

lemma ItemsOf.unique (hcodec : ReadsPayload svc) {id : Int} {items items' : Snapshot} (h : ItemsOf svc m id items)
    (h' : ItemsOf svc m id items') : items = items' := by
  obtain ⟨rev, r, _, hr, hpayload, hitems⟩ := h
  obtain ⟨rev', r', _, hr', hpayload', hitems'⟩ := h'
  rw [hr] at hr'
  cases hr'
  exact hcodec rev rev' items items' (hpayload.symm.trans hpayload') hitems hitems'

lemma Inv.version_pos (hinv : Inv svc s) (hw : w ∈ s.versions) : 1 ≤ w.version := by
  have hmem : w.version ∈ countdown s.versions.length := hinv.made.countdown.1 ▸ mem_map_of_mem hw
  exact (mem_countdown hmem).1

lemma Inv.isVersion_nonneg (hinv : Inv svc s) (hw : IsVersion svc s w) : 0 ≤ w.version := by
  rcases hw with hw | ⟨base, hw, _⟩
  · have := hinv.version_pos hw
    omega
  · rw [hw]
    exact le_refl _

lemma Inv.same_version (hinv : Inv svc s) (hcodec : ReadsPayload svc) (ha : IsVersion svc s wa) (hb : IsVersion svc s wb)
    (hv : wa.version = wb.version) (hbase : wa.base = wb.base) : wa = wb := by
  rcases ha with ha | ⟨basea, ha, hitemsa⟩ <;> rcases hb with hb | ⟨baseb, hb, hitemsb⟩
  · obtain ⟨id, base, _, hchain⟩ := hinv.made.chain (ne_nil_of_mem ha)
    exact hchain.unique rfl (mem_append_left _ ha) (mem_append_left _ hb) hv
  · have := hinv.version_pos ha
    rw [hb, Workspace.unwritten] at hv
    simp only at hv
    omega
  · have := hinv.version_pos hb
    rw [ha, Workspace.unwritten] at hv
    simp only at hv
    omega
  · rw [hbase] at hitemsa
    rw [ha, hb, hbase, hitemsa.unique hcodec hitemsb]

end

section
variable {svc : Service} {hash : Payload → String} {s s' : State}

lemma mergeDraft_base {draft : Revision} {published : Int} {fromItems draftItems onto : Snapshot} {out : Workspace}
    (h : svc.mergeDraft draft published fromItems draftItems onto id w base = .write out entry) :
    w.base ≤ published ∧ out.base = published := by
  unfold Service.mergeDraft at h
  split_ifs at h with htaken hbase
  cases h
  refine ⟨not_lt.mp hbase, ?_⟩
  simp only [Service.takeIn, Service.movedOnto]
  split_ifs with hne
  · rfl
  · exact not_not.mp hne

lemma Change.base_le {out : Workspace}
    (h : change.run svc id w base = .write out entry) (hop : entry.op ≠ .reset) : w.base ≤ out.base := by
  cases change with
  | writeItems op writes note =>
    simp only [Change.run, Service.writeItems] at h
    split at h
    · cases h
    · split at h <;> cases h
      exact le_refl _
  | update to_ next =>
    simp only [Change.run, Service.update] at h
    split_ifs at h with hbase
    cases h
    exact not_lt.mp hbase
  | reset to_ next =>
    cases h
    exact absurd rfl hop
  | resolve conflict theirs =>
    simp only [Change.run, Service.resolve] at h
    split at h <;> cases h
    exact le_refl _
  | mergeDraft draft from_ published fromItems draftItems onto =>
    obtain ⟨hle, hbase⟩ := mergeDraft_base h
    rw [hbase]
    exact hle
  | load rev content keep published onto =>
    simp only [Change.run, Service.load] at h
    split_ifs at h with hbase <;> cases h <;> exact not_lt.mp hbase
  | checkpoint draft builtVersion builtBase =>
    cases h
    exact le_refl _
  | moveAfterCommit snap published next committed =>
    simp only [Change.run, Service.moveAfterCommit] at h
    cases h
    simp only
    split_ifs with hbase
    · exact hbase
    · exact le_refl _

lemma Applied.base_le {e : LogEntry} (h : Applied svc change base w w' e)
    (hop : e.op ≠ .reset) : w.base ≤ w'.base := by
  obtain ⟨id, who, out, entry, hrun, rfl, rfl⟩ := h
  have hle : w.base ≤ out.base := Change.base_le hrun hop
  exact hle

lemma Made.bases (h : Made svc m ws es)
    (hops : ∀ e ∈ es, e.op ≠ .reset) : ws.Pairwise fun newer older => older.base ≤ newer.base := by
  induction h with
  | none => exact .nil
  | first _ h => exact pairwise_singleton _ _
  | next hmade _ h ih =>
    have hws := ih fun e he => hops e (mem_cons_of_mem _ he)
    have hle := h.base_le (hops _ mem_cons_self)
    refine pairwise_cons.mpr ⟨fun w hw => ?_, hws⟩
    rcases mem_cons.mp hw with rfl | hw
    · exact hle
    · exact le_trans ((pairwise_cons.mp hws).1 w hw) hle

lemma Inv.applied (hinv : Inv svc s) (h : s.step svc hash a = some s') :
    (s'.stored = s.stored ∧ s'.log = s.log) ∨
      ∃ w' e, s'.stored = some w' ∧ s'.log = e :: s.log ∧ w'.version = s.version + 1 ∧ e.version = s.version + 1 ∧
        ∀ w, s.stored = some w → ∃ change base, ItemsOf svc s'.history w.base base ∧ Applied svc change base w w' e := by
  have hmade := (hinv.step h).made
  rcases step_writes h with ⟨hst, hlog, _⟩ | ⟨i, who, change, attempt, outer, w₀, base, w', e, _, happlied, hv, hst, hlog, hvs, _⟩
  · exact .inl ⟨hst, hlog⟩
  · obtain ⟨hw', he⟩ := happlied.version
    refine .inr ⟨w', e, hst, hlog, by rw [hw', hv], by rw [he, hv], fun w hw => ?_⟩
    rw [hinv.stored] at hw
    rw [hvs, hlog] at hmade
    generalize s.versions = ws, s.log = es at hmade hw
    cases hmade with
    | first hitems h => cases hw
    | next hmade hitems h =>
      cases hw
      exact ⟨_, _, hitems, h⟩

/-- A workspace never moves back. In every run, without resets among its writes, the bases of
its versions only grow; the versions are numbered one by one, with one entry each in the log;
and each was made by a change of the one before it. A step writes nothing, or it writes a
change of the version kept then. -/
theorem workspace_never_moves_back {m : MemoryStore} (hm : m.WF) (h : Runs svc hash m s) (hops : ∀ e ∈ s.log, e.op ≠ .reset) :
    s.stored = s.versions.head? ∧
    s.versions.map Workspace.version = countdown s.versions.length ∧
    s.log.map LogEntry.version = countdown s.versions.length ∧
    s.versions.Pairwise (fun newer older => older.base ≤ newer.base) ∧
    Made svc s.history s.versions s.log ∧
    ∀ a s', s.step svc hash a = some s' →
      (s'.stored = s.stored ∧ s'.log = s.log) ∨
        ∃ w' e, s'.stored = some w' ∧ s'.log = e :: s.log ∧ w'.version = s.version + 1 ∧ e.version = s.version + 1 ∧
          ∀ w, s.stored = some w → (e.op ≠ .reset → w.base ≤ w'.base) ∧
            ∃ change base, ItemsOf svc s'.history w.base base ∧ Applied svc change base w w' e := by
  have hinv := h.inv hm
  obtain ⟨hversions, hlog⟩ := hinv.made.countdown
  refine ⟨hinv.stored, hversions, hlog, hinv.made.bases hops, hinv.made, fun a s' hstep => ?_⟩
  rcases hinv.applied hstep with hsame | ⟨w', e, hst, hlog, hw', he, happlied⟩
  · exact .inl hsame
  · refine .inr ⟨w', e, hst, hlog, hw', he, fun w hw => ?_⟩
    obtain ⟨change, base, hitems, happlied⟩ := happlied w hw
    exact ⟨happlied.base_le, change, base, hitems, happlied⟩

end

lemma roleService_readsPayload : ReadsPayload roleService := by
  intro r r' items items' hpayload h h'
  have hlookup : described.lookup r.payload = some items := h
  rw [hpayload] at hlookup
  exact Option.some.inj (hlookup.symm.trans h')

/-- The role is written, and written again. -/
def twoWrites : List Action :=
  publishElsewhere [1] 1 0 ++ inTurn 0 (.writeItems .edit [⟨roleRef, some (role "y"), some (role "x"), none⟩] none) 4 ++
    inTurn 1 (.writeItems .edit [⟨roleRef, some (role "z"), some (role "y"), none⟩] none) 3

theorem workspace_never_moves_back_role : ∃ s w, Runs roleService (fun _ => "") .empty s ∧ s.stored = some w ∧ w.version = 2 ∧
    s.log.map LogEntry.version = countdown s.versions.length := by
  have hrun : (Transition.run (State.step roleService fun _ => "") (.init .empty) twoWrites).map
      (fun s => (s.stored.map Workspace.version, s.log.map LogEntry.op)) = some (some 2, [.edit, .edit]) := by decide
  obtain ⟨s, hs, hfacts⟩ := map_eq_some_iff.mp hrun
  obtain ⟨hstored, hops⟩ := Prod.mk.inj hfacts
  obtain ⟨w, hw, hversion⟩ := map_eq_some_iff.mp hstored
  have hreach : Runs roleService (fun _ => "") .empty s := Transition.reachable_of_run (.start trivial) hs
  have hreset : ∀ e ∈ s.log, e.op ≠ .reset := by
    intro e he hop
    have hmem : e.op ∈ [LogOp.edit, .edit] := hops ▸ mem_map_of_mem he
    rw [hop] at hmem
    exact absurd hmem (by decide)
  exact ⟨s, w, hreach, hw, hversion, (workspace_never_moves_back MemoryStore.wf_empty hreach hreset).2.2.1⟩

end SqlMcpServer.Workspaces
